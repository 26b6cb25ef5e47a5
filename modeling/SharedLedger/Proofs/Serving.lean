import SharedLedger.Proofs.Commands

/-!
# Clients that are served

A client that has not gone away and that no fault can strike is served: all its
calls go through (`Store.Serves`). What a plan that only asks comes to can be
read off the committed tables then (`Plan.read`, `Operation.drive_reading`),
and nothing becomes of these. The authorization of a caller is two such plans
one after the other (`Access.drive_authorize_bind`).
-/

namespace SharedLedger

/-- A call that writes nothing inserts no row. -/
theorem Call.Reads.insertsInto?_eq_none {c : Call} (h : c.Reads) : c.insertsInto? = none := by
  cases c <;> first | rfl | cases h .empty 0 _ _ rfl

/-- What ends an operation on the spot, apart from what it can go on with. -/
def Failure.caught {α : Type} : Except Failure α → Except Overflow (Except LedgerError α)
  | .ok a => .ok (.ok a)
  | .error (.refused e) => .ok (.error e)
  | .error (.overflow o) => .error o

namespace Store

variable {s s' s'' : Store} {client : Client} {t : Txn}

/-- The client has not gone away and no fault can strike it. -/
structure Serves (s : Store) (client : Client) : Prop where
  here : s.isCancelled client = false
  unharmed : client.exposed = true → s.fault = none

/-- What a client that only asks leaves behind: the ledger as it was, and a
store that still serves it. -/
structure Unchanged (client : Client) (s s' : Store) : Prop where
  tables_eq : s'.tables = s.tables
  committed_eq : s'.committed = s.committed
  serves : s'.Serves client

theorem Unchanged.trans (h : Unchanged client s s') (h' : Unchanged client s' s'') :
    Unchanged client s s'' :=
  ⟨h'.tables_eq.trans h.tables_eq, h'.committed_eq.trans h.committed_eq, h'.serves⟩

/-- No fault strikes a client that is served. -/
theorem Serves.strike (h : s.Serves client) (method : String) :
    s.strike client method = (.ok (), s) := by
  unfold Store.strike
  split
  · rfl
  · next f hf =>
    have hexposed : client.exposed = false := by
      by_contra hne
      rw [h.unharmed (eq_true_of_ne_false hne)] at hf
      cases hf
    rw [hexposed, Bool.false_and]
    rfl

/-- All calls of a client that is served go through. -/
theorem Serves.allow (h : s.Serves client) (method : String) :
    s.allow client method = (.ok (), s) := by
  unfold Store.allow
  rw [h.strike]
  simp only [h.here, Bool.false_eq_true, ↓reduceIte]

theorem Serves.begin_eq (h : s.Serves client) :
    s.begin client = (.ok ⟨s.nextTxn, client, s.tables, []⟩, { s with nextTxn := s.nextTxn + 1 }) := by
  unfold begin
  rw [h.allow]

/-- A question is answered from the view, or refused. -/
theorem Serves.call_eq (h : s.Serves t.client) {c : Call} (hc : c.Reads) :
    s.call t c = ((c.effect t.view 0).map Prod.snd, t, s) := by
  have hinsert := hc.insertsInto?_eq_none
  have hperform : perform t s.nextId c = ((c.effect t.view 0).map Prod.snd, t) := by
    unfold perform
    rw [Call.effect_congr hinsert t.view s.nextId 0]
    cases he : c.effect t.view 0 with
    | error e => rfl
    | ok mr =>
      obtain ⟨ms, r⟩ := mr
      obtain rfl := hc _ _ _ _ he
      rfl
  unfold call
  rw [h.allow]
  simp only [hinsert, hperform]

/-- A transaction that wrote nothing ends with what its plan came to. -/
theorem Serves.close_eq {α : Type} (h : s.Serves t.client) (hj : t.journal = [])
    (r : Except Failure α) : s.close t r = (s.release t, Failure.caught r) := by
  have hpublish : s.publish t = (.ok (), s) := by
    unfold publish
    rw [h.allow, hj]
    rfl
  match r with
  | .ok a =>
    unfold close finish commit
    rw [hpublish]
    rfl
  | .error (.refused e) =>
    unfold close finish rollback
    rw [h.strike]
    rfl
  | .error (.overflow o) => rfl

end Store

namespace Plan

variable {α β : Type} {s : Store} {txn : Txn} {t : Tables} {p : Plan α}

/-- What a plan that only asks comes to on the tables. -/
def read (t : Tables) : Plan α → Except Failure α
  | done a => .ok a
  | fail e => .error e
  | lock _ next => next.read t
  | call c next =>
    match c.effect t 0 with
    | .error e => .error (.refused e)
    | .ok (_, r) => (next r).read t

@[simp] theorem read_ofExcept (x : Except Failure α) : (ofExcept x).read t = x := by
  cases x <;> rfl

theorem read_bind (p : Plan α) (f : α → Plan β) :
    (p.bind f).read t = (p.read t).bind fun a => (f a).read t := by
  induction p with
  | done a => rfl
  | fail e => rfl
  | lock key next ih => exact ih
  | call c next ih =>
    simp only [bind, read]
    cases c.effect t 0 with
    | error e => rfl
    | ok mr => exact ih mr.2

/-- A plan that only asks answers what it answers alone. -/
theorem ReadOnly.read_of_alone (hp : p.ReadOnly) {ids : Stream' Int} {o : Outcome α}
    (ho : p.alone t ids = .ok o) : p.read t = .ok o.answer := by
  induction hp generalizing o with
  | done a =>
    rw [alone_done.1 ho]
    rfl
  | fail e => exact absurd ho alone_fail
  | @call c next hc _ ih =>
    obtain ⟨ms, r, t', o', he, ht, ho', rfl⟩ := alone_call.1 ho
    obtain rfl := hc _ _ _ _ he
    cases ht
    have hids : c.idsAfter ids = ids := by
      unfold Call.idsAfter
      rw [hc.insertsInto?_eq_none]
      rfl
    rw [hids] at ho'
    rw [Call.effect_congr hc.insertsInto?_eq_none t ids.head 0] at he
    simp only [read, he]
    exact ih r ho'

/-- **A plan that only asks goes through**, and comes to what can be read off
the view. -/
theorem ReadOnly.drive_eq (hp : p.ReadOnly) (hs : s.Serves txn.client) :
    p.drive s txn = (s, .ended (p.read txn.view) txn) := by
  -- question by question; the store and the view stay the same all along
  induction hp with
  | done a => rfl
  | fail e => rfl
  | @call c next hc _ ih =>
    unfold drive read
    rw [hs.call_eq hc]
    cases c.effect txn.view 0 with
    | error e => rfl
    | ok mr => exact ih mr.2

end Plan

namespace Operation

variable {α β : Type} {s : Store} {client : Client} {ids : Stream' Int} {body : Plan β}

/-- **What a transaction that only asks comes to can be read off the committed
tables**, and it leaves these as they are. -/
theorem drive_reading (hb : body.ReadOnly) (hs : s.Serves client) :
    ∃ s', s.Unchanged client s' ∧ ∀ next : Except LedgerError β → Operation α,
      (transaction body next).drive client s =
        match Failure.caught (body.read s.tables) with
        | .error o => (s', .outside (.done (.error (.overflow o))))
        | .ok r => (next r).drive client s' := by
  let t : Txn := ⟨s.nextTxn, client, s.tables, []⟩
  let s₁ : Store := { s with nextTxn := s.nextTxn + 1 }
  have hbegin : s.begin client = (.ok t, s₁) := hs.begin_eq
  have hs₁ : s₁.Serves t.client := ⟨hs.here, hs.unharmed⟩
  have hdrive : body.drive s₁ t = (s₁, .ended (body.read s.tables) t) := hb.drive_eq hs₁
  refine ⟨s₁.release t, ⟨rfl, rfl, hs.here, hs.unharmed⟩, fun next => ?_⟩
  rw [drive]
  simp only [hbegin, hdrive, hs₁.close_eq rfl]
  cases Failure.caught (body.read s.tables) <;> rfl

/-- Goes on after a transaction that only asks where it has an answer. -/
theorem drive_single_bind (hb : body.ReadOnly) (hs : s.Serves client) :
    ∃ s', s.Unchanged client s' ∧ ∀ f : β → Operation α,
      ((single body).bind f).drive client s =
        match body.read s.tables with
        | .error e => (s', .outside (.done (.error e)))
        | .ok a => (f a).drive client s' := by
  obtain ⟨s', hs', hdrive⟩ := drive_reading (α := α) hb hs
  refine ⟨s', hs', fun f => (hdrive _).trans ?_⟩
  match body.read s.tables with
  | .ok a => rfl
  | .error (.refused e) => rfl
  | .error (.overflow o) => rfl

/-- The result of a single transaction that only asks. -/
theorem run_single (hb : body.ReadOnly) (hs : s.Serves client) :
    ∃ s', s.Unchanged client s' ∧
      (single body).run client s = (s', some (body.read s.tables)) := by
  obtain ⟨s', hs', hdrive⟩ := drive_reading (α := β) hb hs
  refine ⟨s', hs', ?_⟩
  unfold run single
  rw [hdrive]
  match body.read s.tables with
  | .ok a => rfl
  | .error (.refused e) => rfl
  | .error (.overflow o) => rfl

/-- **A transaction that only asks comes to what it comes to alone** on the
committed tables. -/
theorem drive_transaction {o : Outcome β} (hb : body.ReadOnly)
    (hs : s.Serves client) (ho : body.alone s.tables ids = .ok o) :
    ∃ s', s'.tables = s.tables ∧ s'.Serves client ∧ ∀ next : Except LedgerError β → Operation α,
      (transaction body next).drive client s = (next (.ok o.answer)).drive client s' := by
  obtain ⟨s', hs', hdrive⟩ := drive_reading (α := α) hb hs
  rw [hb.read_of_alone ho] at hdrive
  exact ⟨s', hs'.tables_eq, hs'.serves, hdrive⟩

end Operation

namespace Access

variable {α : Type} {t : Tables} {g caller : Int} {s : Store} {client : Client}

/-- What the authorization of a caller comes to on the tables. -/
def permit (t : Tables) (caller : Int) (resource : Resource) : Except Failure Unit :=
  ((owningGroup resource).read t).bind fun g =>
    if (t.membersOf g).any (fun m => m.isLinkedTo caller) then .ok ()
    else .error (.refused .forbidden)

/-- **Who is authorized goes on, who is not is turned away**, and nothing
becomes of the ledger. -/
theorem drive_authorize_bind (hs : s.Serves client) (caller : Int) (resource : Resource) :
    ∃ s', s.Unchanged client s' ∧ ∀ f : Unit → Operation α,
      ((authorize caller resource).bind f).drive client s =
        match permit s.tables caller resource with
        | .error e => (s', .outside (.done (.error e)))
        | .ok () => (f ()).drive client s' := by
  obtain ⟨s₁, hs₁, howner⟩ := Operation.drive_single_bind (α := α)
    (readOnly_owningGroup resource) hs
  simp only [authorize_bind, howner]
  unfold permit
  cases hread : (owningGroup resource).read s.tables with
  | error e => exact ⟨s₁, hs₁, fun f => rfl⟩
  | ok g =>
    obtain ⟨s₂, hs₂, hmember⟩ := Operation.drive_reading (α := α)
      (readOnly_isMember g caller) hs₁.serves
    refine ⟨s₂, hs₁.trans hs₂, fun f => (hmember _).trans ?_⟩
    rw [hs₁.tables_eq]
    change Operation.drive client s₂ ((Operation.ofCheck (verdict (.ok
      ((s.tables.membersOf g).any fun m => m.isLinkedTo caller)))).bind f) = _
    simp only [Except.bind]
    cases (s.tables.membersOf g).any fun m => m.isLinkedTo caller <;> rfl

theorem read_owningGroup_group (hg : t.groups.contains g = true) :
    (owningGroup (.group g)).read t = .ok g := by
  obtain ⟨row, hrow⟩ := Index.contains_eq_true_iff.1 hg
  change ((Plan.orRefuse (.notFound .groups g) (t.groups.find? g)).bind fun row =>
    .done row.id).read t = _
  rw [hrow]
  exact congrArg Except.ok (Index.key_of_find? hrow)

theorem any_isLinkedTo {ms : List Member} :
    (ms.any fun m => m.isLinkedTo caller) = true ↔ ∃ m ∈ ms, m.userId = some caller := by
  simp [Member.isLinkedTo]

/-- A member may do what there is to be done with what the group owns. -/
theorem permit_of_owner {resource : Resource} (howner : (owningGroup resource).read t = .ok g)
    (hm : ∃ m ∈ t.membersOf g, m.userId = some caller) : permit t caller resource = .ok () := by
  unfold permit
  rw [howner]
  exact if_pos (any_isLinkedTo.2 hm)

theorem permit_eq_ok (hg : t.groups.contains g = true)
    (hm : ∃ m ∈ t.membersOf g, m.userId = some caller) : permit t caller (.group g) = .ok () :=
  permit_of_owner (read_owningGroup_group hg) hm

theorem permit_expense {id : Int} {e : Expense} (he : t.expenses.find? id = some e)
    (hm : ∃ m ∈ t.membersOf e.groupId, m.userId = some caller) :
    permit t caller (.expense id) = .ok () := by
  refine permit_of_owner ?_ hm
  change ((Plan.orRefuse (.notFound .expenses id) (t.expenses.find? id)).bind fun row =>
    .done row.groupId).read t = _
  rw [he]
  rfl

theorem permit_member {id : Int} {m : Member} (hfind : t.members.find? id = some m)
    (hm : ∃ m' ∈ t.membersOf m.groupId, m'.userId = some caller) :
    permit t caller (.member id) = .ok () := by
  refine permit_of_owner ?_ hm
  change ((Plan.orRefuse (.notFound .members id) (t.members.find? id)).bind fun row =>
    .done row.groupId).read t = _
  rw [hfind]
  rfl

/-- **A member is let through.** -/
theorem drive_authorize (hg : s.tables.groups.contains g = true)
    (hm : ∃ m ∈ s.tables.membersOf g, m.userId = some caller) (hs : s.Serves client) :
    ∃ s', s'.tables = s.tables ∧ s'.Serves client ∧ ∀ f : Unit → Operation α,
      ((authorize caller (.group g)).bind f).drive client s = (f ()).drive client s' := by
  obtain ⟨s', hs', hdrive⟩ := drive_authorize_bind (α := α) hs caller (.group g)
  rw [permit_eq_ok hg hm] at hdrive
  exact ⟨s', hs'.tables_eq, hs'.serves, hdrive⟩

end Access

end SharedLedger
