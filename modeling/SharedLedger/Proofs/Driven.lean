import SharedLedger.Proofs.Atomicity
import SharedLedger.Proofs.Serving
import SharedLedger.Proofs.Sound

/-!
# Driven to the result

To drive an operation is to let it take its steps alone (`Operation.reaches_drive`).
If its client is served and no insert is to fail, each of its transactions comes
to what its plan comes to alone on the committed tables, and leaves what the plan
leaves (`Operation.drive_ready`). The one thing that may come in between is
somebody who has asked before for a row that the operation locks, and where nobody
has, it gets its result (`Operation.exists_run`).
-/

namespace SharedLedger

open Failure (ofCheck)

/-! ## Step by step -/

namespace Run

variable {α β : Type} {client : Client} {s s' s'' : Store} {run run' run'' : Run α}

theorem Execution.trans {js js' : List Mutation} (h : Execution client s run js s' run')
    (h' : Execution client s' run' js' s'' run'') : Execution client s run (js ++ js') s'' run'' := by
  induction h' with
  | start =>
    rw [List.append_nil]
    exact h
  | step _ ih =>
    rw [← List.append_assoc]
    exact ih.step
  | disturbed d _ ih => exact ih.disturbed d

/-- An operation gets somewhere in steps of its own. -/
def Reaches (client : Client) (s : Store) (run : Run α) (s' : Store) (run' : Run α) : Prop :=
  ∃ js, Execution client s run js s' run'

theorem Reaches.trans (h : Reaches client s run s' run') (h' : Reaches client s' run' s'' run'') :
    Reaches client s run s'' run'' := by
  obtain ⟨js, h⟩ := h
  obtain ⟨js', h'⟩ := h'
  exact ⟨_, h.trans h'⟩

theorem reaches_refl : Reaches client s run s run := ⟨_, .start⟩

theorem reaches_step (client : Client) (s : Store) (run : Run α) :
    Reaches client s run (run.step client s).1 (run.step client s).2 :=
  ⟨_, Execution.start.step⟩

end Run

/-- The run that has got so far with a plan. -/
def Progress.run {α β : Type} (next : Except LedgerError β → Operation α) : Progress β → Run α
  | ended (.ok b) t => .inside t (.done b) next
  | ended (.error e) t => .inside t (.fail e) next
  | waiting t key rest => .waiting t key rest next

open Run in
theorem Plan.reaches_drive {α β : Type} {client : Client} (plan : Plan β) (s : Store) (t : Txn)
    (next : Except LedgerError β → Operation α) :
    Reaches client s (.inside t plan next) (plan.drive s t).1 ((plan.drive s t).2.run next) := by
  induction plan generalizing s t with
  | done b => exact reaches_refl
  | fail e => exact reaches_refl
  | lock key plan ih =>
    have hstep := reaches_step client s (.inside t (.lock key plan) next)
    simp only [step] at hstep
    unfold drive
    cases hreply : s.requestLock t key with
    | mk reply rest =>
      rw [hreply] at hstep
      cases reply with
      | queued => exact hstep
      | answered x =>
        cases x with
        | ok u => exact hstep.trans (ih rest.2 rest.1)
        | error e => exact hstep
  | call c plan ih =>
    have hstep := reaches_step client s (.inside t (.call c plan) next)
    simp only [step] at hstep
    unfold drive
    cases hreply : s.call t c with
    | mk reply rest =>
      rw [hreply] at hstep
      cases reply with
      | ok r => exact hstep.trans (ih r rest.2 rest.1)
      | error e => exact hstep

open Run in
/-- **To drive an operation is one way for it to take its steps.** -/
theorem Operation.reaches_drive {α : Type} (client : Client) (op : Operation α) (s : Store) :
    Reaches client s (.outside op) (op.drive client s).1 (op.drive client s).2 := by
  induction op generalizing s with
  | done r => exact reaches_refl
  | transaction body next ih =>
    have hstep := reaches_step client s (.outside (.transaction body next))
    simp only [step] at hstep
    unfold drive
    cases hbegin : s.begin client with
    | mk x s₁ =>
      rw [hbegin] at hstep
      cases x with
      | error e => exact hstep.trans (ih _ s₁)
      | ok t =>
        have hplan := hstep.trans (body.reaches_drive s₁ t next)
        cases hdrive : body.drive s₁ t with
        | mk s₂ progress =>
          rw [hdrive] at hplan
          simp only [hdrive]
          cases progress with
          | waiting t' key rest => exact hplan
          | ended r t' =>
            have hend := hplan.trans (reaches_step _ _ _)
            cases r with
            | ok b => exact hend.trans (ih _ _)
            | error e =>
              cases e with
              | refused e => exact hend.trans (ih _ _)
              | overflow o => exact hend

theorem Operation.reaches_run {α : Type} {client : Client} {op : Operation α} {s : Store}
    {r : Except Failure α} (h : (op.run client s).2 = some r) :
    Run.Reaches client s (.outside op) (op.run client s).1 (.outside (.done r)) := by
  have hdrive := op.reaches_drive client s
  have hr : (op.drive client s).2.result? = some r := h
  rw [Run.result?_eq_some_iff.1 hr] at hdrive
  exact hdrive

/-! ## What a plan leaves -/

namespace Plan

variable {α β : Type} {t : Tables} {ids : Stream' Int}

/-- What a plan comes to that runs alone: its answer, and the tables and the ids
it leaves. -/
def result (p : Plan α) (t : Tables) (ids : Stream' Int) :
    Except Failure (α × Tables × Stream' Int) :=
  (p.alone t ids).map fun o => (o.answer, o.tables, o.ids)

theorem result_of_alone {p : Plan α} {o : Outcome α} (h : p.alone t ids = .ok o) :
    p.result t ids = .ok (o.answer, o.tables, o.ids) := by
  unfold result
  rw [h]
  rfl

@[simp] theorem result_done (a : α) : (done a).result t ids = .ok (a, t, ids) := rfl

@[simp] theorem result_fail (e : Failure) : (fail e : Plan α).result t ids = .error e := rfl

theorem result_lock {key : RowKey} {next : Plan α} :
    (lock key next).result t ids =
      (ofCheck (t.require key.table key.id)).bind fun _ => next.result t ids := by
  unfold result
  rw [alone]
  cases t.require key.table key.id with
  | error e => rfl
  | ok u =>
    change ((next.alone t ids).bind fun o => .ok (o.after [key] [])).map _ = (next.alone t ids).map _
    cases next.alone t ids <;> rfl

theorem result_call {c : Call} {next : c.Reply → Plan α} :
    (call c next).result t ids =
      (ofCheck (c.effect t ids.head)).bind fun x => (ofCheck (t.replay x.1)).bind fun t' =>
        (next x.2).result t' (c.idsAfter ids) := by
  unfold result
  rw [alone]
  cases c.effect t ids.head with
  | error e => rfl
  | ok x =>
    obtain ⟨ms, r⟩ := x
    change ((ofCheck (t.replay ms)).bind fun t' =>
      ((next r).alone t' (c.idsAfter ids)).bind fun o => .ok (o.after [] ms)).map _ =
        (ofCheck (t.replay ms)).bind fun t' => ((next r).alone t' (c.idsAfter ids)).map _
    cases ofCheck (t.replay ms) with
    | error e => rfl
    | ok t' =>
      simp only [Except.bind]
      cases (next r).alone t' (c.idsAfter ids) <;> rfl

/-- **One plan after the other.** -/
theorem result_bind (p : Plan β) (f : β → Plan α) :
    (p.bind f).result t ids = (p.result t ids).bind fun x => (f x.1).result x.2.1 x.2.2 := by
  induction p generalizing t ids with
  | done b => rfl
  | fail e => rfl
  | lock key next ih =>
    rw [Plan.bind, result_lock, result_lock, ih]
    cases ofCheck (t.require key.table key.id) <;> rfl
  | call c next ih =>
    rw [Plan.bind, result_call, result_call]
    cases ofCheck (c.effect t ids.head) with
    | error e => rfl
    | ok x =>
      simp only [Except.bind, ih]
      cases ofCheck (t.replay x.1) <;> rfl

/-- What is calculated from the answer of a plan. -/
theorem result_map (p : Plan β) (f : β → α) :
    (p.bind fun b => done (f b)).result t ids = (p.result t ids).map fun x => (f x.1, x.2) := by
  rw [result_bind]
  cases p.result t ids <;> rfl

/-- A plan that only asks leaves everything as it is. -/
theorem ReadOnly.result_eq {p : Plan α} (h : p.ReadOnly) :
    p.result t ids = (p.read t).map fun a => (a, t, ids) := by
  induction h with
  | done a => rfl
  | fail e => rfl
  | @call c next hc _ ih =>
    have hids : c.idsAfter ids = ids := by
      unfold Call.idsAfter
      rw [hc.insertsInto?_eq_none]
      rfl
    rw [result_call, read, Call.effect_congr hc.insertsInto?_eq_none t ids.head 0]
    cases he : c.effect t 0 with
    | error e => rfl
    | ok x =>
      obtain ⟨ms, r⟩ := x
      obtain rfl := hc _ _ _ _ he
      rw [← ih r, hids]
      rfl

/-- A call that writes one row. -/
theorem result_write {c : Call} {next : c.Reply → Plan α} {m : Mutation} {r : c.Reply}
    (he : c.effect t ids.head = .ok ([m], r)) :
    (call c next).result t ids =
      (ofCheck (t.check m)).bind fun _ => (next r).result (t.enact m) (c.idsAfter ids) := by
  rw [result_call, he]
  have hr : t.replay [m] = (t.check m).map fun _ => t.enact m := by
    simp only [Tables.replay, List.foldlM, Tables.apply]
    cases t.check m <;> rfl
  simp only [ofCheck, Except.bind, hr]
  cases t.check m <;> rfl

end Plan

/-! ## One transaction -/

/-- Writing either succeeds as a whole or stops at the mutation that is refused,
and the journal says in any case what has become of the view. -/
theorem Txn.write_cases {T : Tables} (t : Txn) (ms : List Mutation)
    (hv : T.replay t.journal = .ok t.view) :
    ∃ t', t.write ms = ((t.view.replay ms).map fun _ => (), t') ∧ t'.id = t.id ∧
      t'.client = t.client ∧ T.replay t'.journal = .ok t'.view ∧
      ∀ view, t.view.replay ms = .ok view → t'.view = view := by
  induction ms generalizing t with
  | nil => exact ⟨t, rfl, rfl, rfl, hv, fun _ h => Except.ok.inj h⟩
  | cons m ms ih =>
    have hreplay : t.view.replay (m :: ms) = (t.view.apply m).bind fun v => v.replay ms := rfl
    unfold write
    rw [hreplay]
    cases hm : t.view.apply m with
    | error e => exact ⟨t, rfl, rfl, rfl, hv, fun _ h => by cases h⟩
    | ok view =>
      have hv' : T.replay (t.journal ++ [m]) = .ok view := by
        obtain ⟨hc, rfl⟩ := Tables.apply_eq_ok_iff.1 hm
        exact Tables.replay_append.2 ⟨t.view, hv, Tables.replay_singleton.2 ⟨hc, rfl⟩⟩
      exact ih { t with view, journal := t.journal ++ [m] } hv'

namespace Store

variable {s₀ s s' : Store} {t : Txn} {client : Client}

/-- The client is served, and no insert is to fail. -/
structure Ready (s : Store) (client : Client) : Prop where
  served : s.Serves client
  inserts : s.failingInsert = none
  request_lt : ∀ r ∈ s.lockQueue, r.2 < s.nextTxn

/-- In the midst of a transaction that a client has begun on the store `s₀` while
nobody else did anything: its view is what its journal makes of the tables, and
only its own requests for locks have come to those that were there. -/
structure Amid (client : Client) (s₀ s : Store) (t : Txn) : Prop where
  client_eq : t.client = client
  begun : s₀.Ready t.client
  served : s.Serves t.client
  inserts : s.failingInsert = none
  tables_eq : s.tables = s₀.tables
  nextTxn_le : s₀.nextTxn ≤ s.nextTxn
  view_eq : s₀.tables.replay t.journal = .ok t.view
  others : (s.lockQueue.filter fun r => r.2 ≠ t.id) = s₀.lockQueue

theorem Ready.amid (h : s.Ready client) :
    Amid client s { s with nextTxn := s.nextTxn + 1 } ⟨s.nextTxn, client, s.tables, []⟩ where
  client_eq := rfl
  begun := h
  served := ⟨h.served.here, h.served.unharmed⟩
  inserts := h.inserts
  tables_eq := rfl
  nextTxn_le := Nat.le_succ _
  view_eq := rfl
  others := List.filter_eq_self.2 fun r hr => by simpa using Nat.ne_of_lt (h.request_lt r hr)

/-- A request for a lock is kept waiting only by somebody who has asked for it
before. -/
theorem Amid.requestLock (h : Amid client s₀ s t) (key : RowKey) :
    ∃ s', Amid client s₀ s' t ∧ s'.nextId = s.nextId ∧
      (s.requestLock t key = (.answered (t.view.require key.table key.id), t, s') ∨
        (∃ X, (key, X) ∈ s₀.lockQueue) ∧ s.requestLock t key = (.queued, t, s')) := by
  unfold Store.requestLock
  rw [h.served.allow]
  simp only
  split
  · exact ⟨s, h, rfl, .inl rfl⟩
  let s' : Store := { s with lockQueue := s.lockQueue ++ [(key, t.id)] }
  have hs' : Amid client s₀ s' t :=
    { h with
      served := ⟨h.served.here, h.served.unharmed⟩
      others := by
        show ((s.lockQueue ++ [(key, t.id)]).filter fun r => r.2 ≠ t.id) = s₀.lockQueue
        rw [List.filter_append, h.others]
        simp }
  refine ⟨s', hs', rfl, ?_⟩
  unfold awaitLock
  rw [if_neg (by rw [hs'.served.here]; exact Bool.false_ne_true)]
  split
  · have hacquire : s'.acquire t key = (.answered (t.view.require key.table key.id), t) := by
      unfold acquire
      rw [hs'.tables_eq, h.view_eq]
    refine .inl ?_
    simp only [hacquire, s']
  · next hheld =>
    -- the row was asked for, so somebody holds it, and it is not the transaction
    obtain ⟨X, hX⟩ : ∃ X, s'.holder? key = some X :=
      exists_holder (List.mem_append_right _ List.mem_cons_self)
    have hne : X ≠ t.id := fun he => hheld (hX.trans (congrArg some he))
    refine .inr ⟨⟨X, ?_⟩, rfl⟩
    rw [← hs'.others]
    exact List.mem_filter.2 ⟨mem_of_holder hX, decide_eq_true hne⟩

/-- A call does what its effect says. -/
theorem Amid.call (h : Amid client s₀ s t) (c : Call) :
    ∃ s' t', Amid client s₀ s' t' ∧ idsFrom s'.nextId = c.idsAfter (idsFrom s.nextId) ∧
      s.call t c = ((c.effect t.view s.nextId).bind fun x => (t.view.replay x.1).map fun _ => x.2,
        t', s') ∧
      ∀ ms r view, c.effect t.view s.nextId = .ok (ms, r) → t.view.replay ms = .ok view →
        t'.view = view := by
  obtain ⟨t', hperform, ht'⟩ : ∃ t', perform t s.nextId c =
      ((c.effect t.view s.nextId).bind fun x => (t.view.replay x.1).map fun _ => x.2, t') ∧
      t'.id = t.id ∧ t'.client = t.client ∧ s₀.tables.replay t'.journal = .ok t'.view ∧
      ∀ ms r view, c.effect t.view s.nextId = .ok (ms, r) → t.view.replay ms = .ok view →
        t'.view = view := by
    unfold perform
    cases c.effect t.view s.nextId with
    | error e => exact ⟨t, rfl, rfl, rfl, h.view_eq, fun _ _ _ he => by cases he⟩
    | ok x =>
      obtain ⟨ms, r⟩ := x
      obtain ⟨t', hw, hid, hc, hv, hview⟩ := t.write_cases ms h.view_eq
      refine ⟨t', ?_, hid, hc, hv, fun _ _ view he => ?_⟩
      · simp only [hw, Except.bind]
        cases t.view.replay ms <;> rfl
      · cases he
        exact hview view
  obtain ⟨hid, hclient, hv, hview⟩ := ht'
  have amid {s' : Store} (hs : s'.Serves t.client) (hi : s'.failingInsert = none)
      (htables : s'.tables = s₀.tables) (hn : s₀.nextTxn ≤ s'.nextTxn)
      (hq : s'.lockQueue = s.lockQueue) : Amid client s₀ s' t' :=
    ⟨hclient.trans h.client_eq, hclient ▸ h.begun, hclient ▸ hs, hi, htables, hn, hv,
      by rw [hq, hid, h.others]⟩
  unfold Store.call
  rw [h.served.allow]
  cases hi : c.insertsInto? with
  | none =>
    refine ⟨s, t', amid h.served h.inserts h.tables_eq h.nextTxn_le rfl, ?_, ?_, hview⟩
    · simp [Call.idsAfter, hi]
    · simp only [hperform]
  | some table =>
    have hinsert : s.allowInsert table = (.ok (), s) := by
      unfold allowInsert
      rw [h.inserts]
      exact if_neg (by simp)
    refine ⟨{ s with nextId := s.nextId + 1 }, t',
      amid ⟨h.served.here, h.served.unharmed⟩ h.inserts h.tables_eq h.nextTxn_le rfl, ?_, ?_, hview⟩
    · simp [Call.idsAfter, hi, tail_idsFrom]
    · simp only [hinsert, hperform]

/-- The transaction ends: what it has written is in the tables, if it was
successful, and its requests for locks are gone. -/
theorem Amid.close (h : Amid client s₀ s t) {α : Type} (r : Except Failure α) :
    ∃ s', s.close t r = (s', Failure.caught r) ∧ s'.Ready t.client ∧
      s'.lockQueue = s₀.lockQueue ∧ s'.nextId = s.nextId ∧
      (∀ a, r = .ok a → s'.tables = t.view) ∧ ∀ e, r = .error e → s'.tables = s₀.tables := by
  have ready {s' : Store} (hs : s'.Serves t.client) (hi : s'.failingInsert = none)
      (hn : s'.nextTxn = s.nextTxn) (hq : s'.lockQueue = s₀.lockQueue) : s'.Ready t.client :=
    ⟨hs, hi, fun r hr => lt_of_lt_of_le (h.begun.request_lt r (hq ▸ hr)) (hn ▸ h.nextTxn_le)⟩
  have hserves : (s.release t).Serves t.client := ⟨h.served.here, h.served.unharmed⟩
  match r with
  | .ok a =>
    have hpublish : s.publish t = (.ok (),
        { s with tables := t.view, committed := s.committed + t.journal.length }) := by
      unfold publish
      rw [h.served.allow]
      simp only [h.tables_eq, h.view_eq]
    refine ⟨release { s with tables := t.view, committed := s.committed + t.journal.length } t,
      ?_, ready ⟨h.served.here, h.served.unharmed⟩ h.inserts rfl h.others, h.others, rfl,
      fun _ _ => rfl, nofun⟩
    unfold Store.close finish commit
    rw [hpublish]
    rfl
  | .error (.refused e) =>
    refine ⟨s.release t, ?_, ready hserves h.inserts rfl h.others, h.others, rfl,
      nofun, fun _ _ => h.tables_eq⟩
    unfold Store.close finish rollback
    rw [h.served.strike]
    rfl
  | .error (.overflow o) =>
    exact ⟨s.release t, rfl, ready hserves h.inserts rfl h.others, h.others, rfl,
      nofun, fun _ _ => h.tables_eq⟩

end Store

/-- A plan that asks for no locks but those of `K` on the way it takes on some tables. -/
inductive Plan.LocksOn {α : Type} (K : RowKey → Prop) : Tables → Plan α → Prop
  | done {t : Tables} (a : α) : LocksOn K t (.done a)
  | fail {t : Tables} (e : Failure) : LocksOn K t (.fail e)
  | lock {t : Tables} {key : RowKey} {next : Plan α} (hk : K key) (h : LocksOn K t next) :
      LocksOn K t (.lock key next)
  | call {t : Tables} {c : Call} {next : c.Reply → Plan α}
      (h : ∀ id ms r t', c.effect t id = .ok (ms, r) → t.replay ms = .ok t' →
        LocksOn K t' (next r)) : LocksOn K t (.call c next)

theorem Plan.LocksOnly.locksOn {α : Type} {K : RowKey → Prop} {p : Plan α} (h : p.LocksOnly K)
    (t : Tables) : p.LocksOn K t := by
  induction h generalizing t with
  | done a => exact .done a
  | fail e => exact .fail e
  | lock hk _ ih => exact .lock hk (ih t)
  | call _ ih => exact .call fun _ _ r t' _ _ => ih r t'

/-- **A plan that is driven comes to what it comes to alone**, or is kept waiting
by somebody who has asked for a row before that it locks. -/
theorem Store.Amid.drive {α : Type} {client : Client} {s₀ s : Store} {t : Txn}
    {K : RowKey → Prop} {p : Plan α} (h : Amid client s₀ s t) (hp : p.LocksOn K t.view) :
    ((∃ key X, K key ∧ (key, X) ∈ s₀.lockQueue) ∧
      ∃ s' t' key rest, p.drive s t = (s', .waiting t' key rest)) ∨
    ∃ s' t', Amid client s₀ s' t' ∧
      p.drive s t = (s', .ended ((p.result t.view (idsFrom s.nextId)).map Prod.fst) t') ∧
      ∀ x, p.result t.view (idsFrom s.nextId) = .ok x → x.2 = (t'.view, idsFrom s'.nextId) := by
  generalize hv : t.view = view at hp
  induction hp generalizing s t with
  | done a =>
    refine .inr ⟨s, t, h, rfl, ?_⟩
    rintro _ ⟨⟩
    rw [hv]
  | fail e => exact .inr ⟨s, t, h, rfl, fun _ hx => (by cases hx)⟩
  | @lock view key next hk _ ih =>
    obtain ⟨s₁, h₁, hn, hreply | ⟨⟨X, hX⟩, hreply⟩⟩ := h.requestLock key
    · rw [Plan.result_lock]
      unfold Plan.drive
      rw [hreply, hv]
      cases view.require key.table key.id with
      | error e => exact .inr ⟨s₁, t, h₁, rfl, fun _ hx => (by cases hx)⟩
      | ok u =>
        rw [← hn]
        exact ih h₁ hv
    · refine .inl ⟨⟨key, X, hk, hX⟩, s₁, t, key, next, ?_⟩
      unfold Plan.drive
      rw [hreply]
  | @call view c next _ ih =>
    obtain ⟨s₁, t₁, h₁, hn, hreply, hview⟩ := h.call c
    rw [hv] at hreply hview
    rw [Plan.result_call, ← hn]
    unfold Plan.drive
    rw [hreply]
    have hhead : (idsFrom s.nextId).head = s.nextId := Int.add_zero _
    rw [hhead]
    cases he : c.effect view s.nextId with
    | error e => exact .inr ⟨s₁, t₁, h₁, rfl, fun _ hx => (by cases hx)⟩
    | ok x =>
      obtain ⟨ms, r⟩ := x
      simp only [Except.bind, ofCheck]
      cases hr : view.replay ms with
      | error e => exact .inr ⟨s₁, t₁, h₁, rfl, fun _ hx => (by cases hx)⟩
      | ok view' => exact ih s.nextId ms r view' he hr h₁ (hview ms r view' he hr)

/-- The store that a transaction leaves which did what its plan does alone. -/
structure Plan.Leaves {α : Type} (p : Plan α) (client : Client) (s s' : Store) : Prop where
  ready : s'.Ready client
  lockQueue_eq : s'.lockQueue = s.lockQueue
  of_ok : ∀ a t ids, p.result s.tables (idsFrom s.nextId) = .ok (a, t, ids) →
    s'.tables = t ∧ idsFrom s'.nextId = ids
  of_error : ∀ e, p.result s.tables (idsFrom s.nextId) = .error e → s'.tables = s.tables

/-! ## Operations -/

namespace Operation

variable {α β : Type} {client : Client} {s s' : Store}

/-- An operation that asks for no locks but those of `K`. -/
inductive LocksOnly (K : RowKey → Prop) : Operation α → Prop
  | done (r : Except Failure α) : LocksOnly K (.done r)
  | transaction {β : Type} {body : Plan β} {next : Except LedgerError β → Operation α}
      (hb : body.LocksOnly K) (hn : ∀ r, (next r).LocksOnly K) :
      LocksOnly K (.transaction body next)

variable {K : RowKey → Prop}

theorem locksOnly_of_forall (hK : ∀ key, K key) (op : Operation α) : op.LocksOnly K := by
  induction op with
  | done r => exact .done r
  | transaction body next ih => exact .transaction (body.locksOnly_of_forall hK) ih

theorem locksOnly_single {body : Plan α} (hb : body.LocksOnly K) : (single body).LocksOnly K :=
  .transaction hb fun _ => .done _

/-- **A transaction that is driven comes to what its plan comes to alone** on the
committed tables, or is kept waiting by somebody who has asked for a row before that it
locks. -/
theorem drive_ready (h : s.Ready client) {body : Plan β} (hb : body.LocksOn K s.tables) :
    ((∃ key X, K key ∧ (key, X) ∈ s.lockQueue) ∧ ∀ next : Except LedgerError β → Operation α,
      ((Operation.transaction body next).drive client s).2.result? = none) ∨
    ∃ s', body.Leaves client s s' ∧ ∀ next : Except LedgerError β → Operation α,
      (Operation.transaction body next).drive client s =
        match Failure.caught ((body.result s.tables (idsFrom s.nextId)).map Prod.fst) with
        | .error o => (s', .outside (.done (.error (.overflow o))))
        | .ok r => (next r).drive client s' := by
  have hbegin := h.served.begin_eq
  rcases h.amid.drive hb with ⟨hothers, s₁, t₁, key, rest, hdrive⟩ | ⟨s₁, t₁, h₁, hdrive, hids⟩
  · refine .inl ⟨hothers, fun next => ?_⟩
    unfold drive
    simp only [hbegin, hdrive]
    rfl
  · obtain ⟨s', hclose, hready, hqueue, hn, hok, herror⟩ :=
      h₁.close ((body.result s.tables (idsFrom s.nextId)).map Prod.fst)
    have hclient := h₁.client_eq
    refine .inr ⟨s', ⟨hclient ▸ hready, hqueue, fun a t ids hr => ?_, fun e hr => ?_⟩, fun next => ?_⟩
    · obtain ⟨rfl, rfl⟩ := Prod.mk.inj (hids _ hr)
      exact ⟨hok a (congrArg (Except.map Prod.fst) hr), congrArg idsFrom hn⟩
    · exact herror e (congrArg (Except.map Prod.fst) hr)
    · rw [drive]
      simp only [hbegin, hdrive, hclose]
      cases Failure.caught ((body.result s.tables (idsFrom s.nextId)).map Prod.fst) <;> rfl

/-- **Where nobody has asked for the rows it locks, there is nobody to wait for**, and
an operation gets its result. -/
theorem exists_run {op : Operation α} (hop : op.LocksOnly K) (h : s.Ready client)
    (hq : ∀ key X, K key → (key, X) ∉ s.lockQueue) : ∃ s' r, op.run client s = (s', some r) := by
  induction hop generalizing s with
  | done r => exact ⟨s, r, rfl⟩
  | @transaction β body next hb _ ih =>
    rcases drive_ready (α := α) h (hb.locksOn _) with ⟨⟨key, X, hk, hX⟩, -⟩ | ⟨s', hl, hdrive⟩
    · exact absurd hX (hq key X hk)
    · unfold run
      rw [hdrive]
      cases Failure.caught ((body.result s.tables (idsFrom s.nextId)).map Prod.fst) with
      | error o => exact ⟨s', _, rfl⟩
      | ok x => exact ih x hl.ready (hl.lockQueue_eq.symm ▸ hq)

theorem exists_run_single {body : Plan α} (hb : body.LocksOn K s.tables) (h : s.Ready client)
    (hq : ∀ key X, K key → (key, X) ∉ s.lockQueue) :
    ∃ s' r, (single body).run client s = (s', some r) := by
  rcases drive_ready (α := α) h hb with ⟨⟨key, X, hk, hX⟩, -⟩ | ⟨s', -, hdrive⟩
  · exact absurd hX (hq key X hk)
  · unfold run single
    rw [hdrive]
    match (body.result s.tables (idsFrom s.nextId)).map Prod.fst with
    | .ok a => exact ⟨s', _, rfl⟩
    | .error (.refused e) => exact ⟨s', _, rfl⟩
    | .error (.overflow o) => exact ⟨s', _, rfl⟩

theorem exists_run_of_idle (h : s.Ready client) (hq : s.lockQueue = []) (op : Operation α) :
    ∃ s' r, op.run client s = (s', some r) := by
  refine exists_run (op.locksOnly_of_forall fun _ => trivial) h fun key X _ hin => ?_
  rw [hq] at hin
  cases hin

/-- An operation that has got its result, after its first transaction. -/
theorem of_run_transaction (h : s.Ready client) {body : Plan β}
    {next : Except LedgerError β → Operation α} {r : Except Failure α}
    (hrun : (transaction body next).run client s = (s', some r)) :
    ∃ s₁, body.Leaves client s s₁ ∧
      match Failure.caught ((body.result s.tables (idsFrom s.nextId)).map Prod.fst) with
      | .error o => s' = s₁ ∧ r = .error (.overflow o)
      | .ok x => (next x).run client s₁ = (s', some r) := by
  rcases drive_ready (α := α) h ((body.locksOnly_of_forall fun _ => trivial).locksOn _) with
    ⟨-, hnone⟩ | ⟨s₁, hl, hdrive⟩
  · have hr := congrArg Prod.snd hrun
    cases (hnone next).symm.trans hr
  · refine ⟨s₁, hl, ?_⟩
    unfold run at hrun
    rw [hdrive] at hrun
    cases hx : Failure.caught ((body.result s.tables (idsFrom s.nextId)).map Prod.fst) with
    | error o =>
      rw [hx] at hrun
      obtain ⟨hs, hr⟩ := Prod.mk.inj hrun
      exact ⟨hs.symm, (Option.some.inj hr).symm⟩
    | ok x =>
      rw [hx] at hrun
      exact hrun

/-- **The result of a single transaction is that of its plan.** -/
theorem of_run_single (h : s.Ready client) {body : Plan β} {r : Except Failure β}
    (hrun : (single body).run client s = (s', some r)) :
    body.Leaves client s s' ∧ r = (body.result s.tables (idsFrom s.nextId)).map Prod.fst := by
  obtain ⟨s₁, hl, hrest⟩ := of_run_transaction h hrun
  match hx : (body.result s.tables (idsFrom s.nextId)).map Prod.fst with
  | .ok b | .error (.refused e) =>
    rw [hx] at hrest
    obtain ⟨rfl, hr⟩ := Prod.mk.inj hrest
    exact ⟨hl, (Option.some.inj hr).symm⟩
  | .error (.overflow o) =>
    rw [hx] at hrest
    obtain ⟨rfl, rfl⟩ := hrest
    exact ⟨hl, rfl⟩

/-- An operation is run transaction by transaction. -/
theorem run_transaction (body : Plan β) (next : Except LedgerError β → Operation α) :
    (transaction body next).run client s =
      match s.begin client with
      | (.error e, s) => (next (.error e)).run client s
      | (.ok t, s) =>
        match body.drive s t with
        | (s, .waiting _ _ _) => (s, none)
        | (s, .ended r t) =>
          match s.close t r with
          | (s, .error o) => (s, some (.error (.overflow o)))
          | (s, .ok r) => (next r).run client s := by
  unfold run
  rw [drive]
  cases s.begin client with
  | mk x s₁ =>
    cases x with
    | error e => rfl
    | ok t =>
      cases hdrive : body.drive s₁ t with
      | mk s₂ progress =>
        simp only [hdrive]
        cases progress with
        | waiting t' key rest => rfl
        | ended r t' =>
          simp only
          cases s₂.close t' r with
          | mk s₃ y => cases y <;> rfl

/-- **One operation after the other**: the second one begins where the first one
has ended, if that was a success. -/
theorem of_run_bind {op : Operation β} {f : β → Operation α} {r : Except Failure α}
    (hrun : (op.bind f).run client s = (s', some r)) :
    ∃ s₁ r₁, op.run client s = (s₁, some r₁) ∧
      match r₁ with
      | .ok b => (f b).run client s₁ = (s', some r)
      | .error e => s' = s₁ ∧ r = .error e := by
  induction op generalizing s with
  | done r₁ =>
    cases r₁ with
    | ok b => exact ⟨s, .ok b, rfl, hrun⟩
    | error e =>
      obtain ⟨rfl, hr⟩ := Prod.mk.inj hrun
      exact ⟨s, .error e, rfl, rfl, (Option.some.inj hr).symm⟩
  | transaction body next ih =>
    rw [Operation.bind, run_transaction] at hrun
    rw [run_transaction]
    cases hbegin : s.begin client with
    | mk x s₁ =>
      rw [hbegin] at hrun
      cases x with
      | error e => exact ih _ hrun
      | ok t =>
        cases hdrive : body.drive s₁ t with
        | mk s₂ progress =>
          simp only [hdrive] at hrun ⊢
          cases progress with
          | waiting t' key rest => cases (Prod.mk.inj hrun).2
          | ended r₂ t' =>
            simp only at hrun ⊢
            cases hclose : s₂.close t' r₂ with
            | mk s₃ y =>
              rw [hclose] at hrun
              cases y with
              | error o =>
                obtain ⟨rfl, hr⟩ := Prod.mk.inj hrun
                exact ⟨s₃, .error (.overflow o), rfl, rfl, (Option.some.inj hr).symm⟩
              | ok y => exact ih y hrun

/-- What is calculated from the result of an operation. -/
theorem of_run_map {op : Operation β} {f : β → α} {r : Except Failure α}
    (hrun : (op.bind fun b => .done (.ok (f b))).run client s = (s', some r)) :
    ∃ r₁, op.run client s = (s', some r₁) ∧ r = r₁.map f := by
  obtain ⟨s₁, r₁, hop, hrest⟩ := of_run_bind hrun
  cases r₁ with
  | ok b =>
    obtain ⟨rfl, hr⟩ := Prod.mk.inj hrest
    exact ⟨_, hop, (Option.some.inj hr).symm⟩
  | error e =>
    obtain ⟨rfl, rfl⟩ := hrest
    exact ⟨_, hop, rfl⟩

end Operation

/-! ## Authorization -/

/-- A plan leaves what another one does from whose answer it calculates its own. -/
theorem Plan.Leaves.of_map {α β : Type} {p : Plan α} {q : Plan β} {f : α → β} {client : Client}
    {s s' : Store} (h : p.Leaves client s s') (hq : q.result s.tables (idsFrom s.nextId) =
      (p.result s.tables (idsFrom s.nextId)).map fun x => (f x.1, x.2)) :
    q.Leaves client s s' := by
  cases hp : p.result s.tables (idsFrom s.nextId) with
  | error e =>
    rw [hp] at hq
    exact ⟨h.ready, h.lockQueue_eq, fun _ _ _ ha => (by cases hq.symm.trans ha),
      fun _ _ => h.of_error e hp⟩
  | ok x =>
    rw [hp] at hq
    refine ⟨h.ready, h.lockQueue_eq, fun a t ids ha => ?_, fun e he => (by cases hq.symm.trans he)⟩
    obtain ⟨-, hx⟩ := Prod.mk.inj (Except.ok.inj (hq.symm.trans ha))
    exact h.of_ok x.1 t ids (by rw [hp, ← hx])

/-- A plan that only asks leaves everything as it is, if it gets an answer. -/
theorem Plan.Leaves.of_read {α : Type} {p : Plan α} {client : Client} {s s' : Store} {a : α}
    (h : p.Leaves client s s') (hp : p.ReadOnly) (ha : p.read s.tables = .ok a) :
    s'.tables = s.tables ∧ s'.nextId = s.nextId := by
  have hresult : p.result s.tables (idsFrom s.nextId) = .ok (a, s.tables, idsFrom s.nextId) := by
    rw [hp.result_eq, ha]
    rfl
  obtain ⟨htables, hids⟩ := h.of_ok _ _ _ hresult
  have hfirst : s'.nextId + ((0 : ℕ) : Int) = s.nextId + ((0 : ℕ) : Int) := congrFun hids 0
  exact ⟨htables, by omega⟩

/-- Who is authorized goes on where the authorization began. -/
theorem Access.of_run_authorize_bind {α : Type} {client : Client} {s s' : Store} {caller : Int}
    {resource : Resource} {f : Unit → Operation α} {r : Except Failure α} (h : s.Ready client)
    (hp : permit s.tables caller resource = .ok ())
    (hrun : ((authorize caller resource).bind f).run client s = (s', some r)) :
    ∃ s₁, s₁.Ready client ∧ s₁.tables = s.tables ∧ s₁.nextId = s.nextId ∧
      s₁.lockQueue = s.lockQueue ∧ (f ()).run client s₁ = (s', some r) := by
  unfold permit at hp
  cases hg : (owningGroup resource).read s.tables with
  | error e =>
    rw [hg] at hp
    cases hp
  | ok g =>
    have hmember : (s.tables.membersOf g).any (fun m => m.isLinkedTo caller) = true := by
      by_contra hnot
      rw [hg] at hp
      simp only [Except.bind, hnot] at hp
      cases hp
    obtain ⟨s₂, r₂, hauthorize, hrest⟩ := Operation.of_run_bind hrun
    obtain ⟨s₁, r₁, howner, hrequire⟩ := Operation.of_run_bind hauthorize
    obtain ⟨hl₁, rfl⟩ := Operation.of_run_single h howner
    obtain ⟨ht₁, hn₁⟩ := hl₁.of_read (readOnly_owningGroup resource) hg
    rw [(readOnly_owningGroup resource).result_eq, hg] at hrequire
    obtain ⟨s₃, hl₂, hend⟩ := Operation.of_run_transaction hl₁.ready hrequire
    have hread : (isMember g caller).read s₁.tables = .ok true := by
      rw [ht₁, ← hmember]
      rfl
    obtain ⟨ht₂, hn₂⟩ := hl₂.of_read (readOnly_isMember g caller) hread
    rw [(readOnly_isMember g caller).result_eq, hread] at hend
    obtain ⟨rfl, hr⟩ := Prod.mk.inj hend
    obtain rfl := Option.some.inj hr
    exact ⟨s₃, hl₂.ready, ht₂.trans ht₁, hn₂.trans hn₁,
      hl₂.lockQueue_eq.trans hl₁.lockQueue_eq, hrest⟩

/-- Authorization keeps nobody waiting. -/
theorem Access.exists_authorized {α : Type} {client : Client} {s : Store} {caller : Int}
    {resource : Resource} (h : s.Ready client) (hp : permit s.tables caller resource = .ok ()) :
    ∃ s₁, s₁.Ready client ∧ s₁.tables = s.tables ∧ s₁.lockQueue = s.lockQueue ∧
      ∀ f : Unit → Operation α,
        ((authorize caller resource).bind f).run client s = (f ()).run client s₁ := by
  obtain ⟨s₁, -, hdrive⟩ := drive_authorize_bind (α := α) h.served caller resource
  rw [hp] at hdrive
  have hrun : ∀ f : Unit → Operation α,
      ((authorize caller resource).bind f).run client s = (f ()).run client s₁ := by
    intro f
    unfold Operation.run
    rw [hdrive]
  -- where it ends is where a result would be answered
  obtain ⟨s₂, h₂, ht, -, hq, hend⟩ :=
    of_run_authorize_bind (f := fun _ => .done (.error (.refused .forbidden))) h hp (hrun _)
  obtain ⟨rfl, -⟩ := Prod.mk.inj hend
  exact ⟨s₂, h₂, ht, hq, hrun⟩

/-- **An action that the caller may do and that is a single transaction** comes to
what its plan comes to alone, if its arguments are in order. -/
theorem Action.of_run_on {a : Action} {body : Plan a.Reply} {client : Client} {s s' : Store}
    {caller : Int} {r : Except Failure a.Reply} (ha : a.operation = .single body)
    (h : s.Ready client) (hp : Access.permit s.tables caller a.resource = .ok ())
    (hrun : (a.on caller).run client s = (s', some r)) :
    match a.checkFirst with
    | .error e => s' = s ∧ r = .error (.refused e)
    | .ok () =>
      body.Leaves client s s' ∧ r = (body.result s.tables (idsFrom s.nextId)).map Prod.fst := by
  have hon : a.on caller = (Operation.ofCheck a.checkFirst).bind fun _ =>
      (Access.authorize caller a.resource).bind fun _ => a.operation := rfl
  rw [hon] at hrun
  cases hcheck : a.checkFirst with
  | error e =>
    rw [hcheck] at hrun
    obtain ⟨rfl, hr⟩ := Prod.mk.inj hrun
    exact ⟨rfl, (Option.some.inj hr).symm⟩
  | ok u =>
    rw [hcheck] at hrun
    obtain ⟨s₁, h₁, ht, hn, hq, hrest⟩ := Access.of_run_authorize_bind h hp hrun
    rw [ha] at hrest
    obtain ⟨hl, hr⟩ := Operation.of_run_single h₁ hrest
    rw [ht, hn] at hr
    refine ⟨⟨hl.ready, hl.lockQueue_eq.trans hq, ?_, ?_⟩, hr⟩
    · rw [← ht, ← hn]
      exact hl.of_ok
    · rw [← ht, ← hn]
      exact hl.of_error

/-! ## What an operation comes to -/

/-- **An operation comes to something**: if it gets a result, that and the store it
leaves are as `post` has it, and it gets one unless somebody has asked for the row
`key`. -/
structure Operation.ComesTo {α : Type} (op : Operation α) (client : Client) (s : Store)
    (key : RowKey) (post : Store → Except Failure α → Prop) : Prop where
  outcome : ∀ s' r, op.run client s = (s', some r) → post s' r
  answered : (∀ X, (key, X) ∉ s.lockQueue) → ∃ s' r, op.run client s = (s', some r)

theorem Operation.comesTo {α : Type} {op : Operation α} {client : Client} {s : Store}
    {key : RowKey} {post : Store → Except Failure α → Prop} (h : s.Ready client)
    (hop : op.LocksOnly (· = key))
    (hpost : ∀ s' r, op.run client s = (s', some r) → post s' r) :
    op.ComesTo client s key post :=
  ⟨hpost, fun hq => exists_run hop h fun _ X hk => hk ▸ hq X⟩

theorem Operation.ComesTo.mono {α : Type} {op : Operation α} {client : Client} {s : Store}
    {key : RowKey} {post post' : Store → Except Failure α → Prop}
    (h : op.ComesTo client s key post) (hpost : ∀ s' r, post s' r → post' s' r) :
    op.ComesTo client s key post' :=
  ⟨fun s' r hrun => hpost s' r (h.outcome s' r hrun), h.answered⟩

/-- A transaction whose plan succeeds alone leaves what the plan leaves. -/
theorem Plan.Leaves.of_alone {α : Type} {p : Plan α} {client : Client} {s s' : Store}
    {o : Outcome α} (h : p.Leaves client s s')
    (ho : p.alone s.tables (idsFrom s.nextId) = .ok o) :
    s'.tables = o.tables ∧
      (p.result s.tables (idsFrom s.nextId)).map Prod.fst = .ok o.answer := by
  have hresult := result_of_alone ho
  refine ⟨(h.of_ok _ _ _ hresult).1, ?_⟩
  rw [hresult]
  rfl

/-- **What an action comes to** that the caller may do and that is a single
transaction. -/
theorem Action.comesTo_of_locksOn {a : Action} {body : Plan a.Reply} {client : Client} {s : Store}
    {caller : Int} {key : RowKey} {post : Store → Except Failure a.Reply → Prop}
    (ha : a.operation = .single body) (hcheck : a.checkFirst = .ok ())
    (hb : body.LocksOn (· = key) s.tables) (h : s.Ready client)
    (hp : Access.permit s.tables caller a.resource = .ok ())
    (hpost : ∀ s', body.Leaves client s s' →
      post s' ((body.result s.tables (idsFrom s.nextId)).map Prod.fst)) :
    (a.on caller).ComesTo client s key post where
  outcome s' r hrun := by
    have hon := of_run_on ha h hp hrun
    rw [hcheck] at hon
    obtain ⟨hl, rfl⟩ := hon
    exact hpost s' hl
  answered hq := by
    obtain ⟨s₁, h₁, ht, hqueue, hrun⟩ := Access.exists_authorized (α := a.Reply) h hp
    have hon : (a.on caller).run client s = (Operation.single body).run client s₁ := by
      unfold Action.on
      rw [hcheck, ← ha]
      exact hrun _
    rw [hon]
    refine Operation.exists_run_single (ht ▸ hb) h₁ fun key X hk => ?_
    rw [hk, hqueue]
    exact hq X

theorem Action.comesTo_on {a : Action} {body : Plan a.Reply} {client : Client} {s : Store}
    {caller : Int} {key : RowKey} {post : Store → Except Failure a.Reply → Prop}
    (ha : a.operation = .single body) (hcheck : a.checkFirst = .ok ())
    (hb : body.LocksOnly (· = key)) (h : s.Ready client)
    (hp : Access.permit s.tables caller a.resource = .ok ())
    (hpost : ∀ s', body.Leaves client s s' →
      post s' ((body.result s.tables (idsFrom s.nextId)).map Prod.fst)) :
    (a.on caller).ComesTo client s key post :=
  comesTo_of_locksOn ha hcheck (hb.locksOn _) h hp hpost

end SharedLedger
