import SharedLedger.Operation.Run
import SharedLedger.Proofs.Tables
import Mathlib.Data.Stream.Init

/-!
# Plans that run alone

`Plan.alone` carries a plan out on tables that nobody else changes, without
faults, and with fresh ids from a given supply: what is answered, which rows
are locked, what is written to the journal and what becomes of the tables. It
is the meaning of a plan against which interleaved runs are measured: the
store carries out the same calls (`alone_call`), but on a view that may be
out of date, and the journal ends up on tables that have moved on.
-/

namespace SharedLedger

/-- What a plan comes to: the answer, the rows that were locked, what was
written, the tables after it and the ids that are left. -/
structure Outcome (α : Type) where
  answer : α
  locked : List RowKey
  journal : List Mutation
  tables : Tables
  ids : Stream' Int

namespace Outcome

variable {α : Type}

/-- The outcome with locks taken and mutations written before it. -/
def after (o : Outcome α) (ls : List RowKey) (js : List Mutation) : Outcome α :=
  { o with locked := ls ++ o.locked, journal := js ++ o.journal }

theorem after_after (o : Outcome α) (ls ls' : List RowKey) (js js' : List Mutation) :
    (o.after ls' js').after ls js = o.after (ls ++ ls') (js ++ js') := by
  simp [after]

end Outcome

/-- The ids a call leaves: one that inserts a row uses one up. -/
def Call.idsAfter (c : Call) (ids : Stream' Int) : Stream' Int :=
  if c.insertsInto?.isSome then ids.tail else ids

namespace Failure

variable {α β : Type}

theorem ofCheck_eq_ok_iff {x : Except LedgerError α} {a : α} : ofCheck x = .ok a ↔ x = .ok a := by
  cases x <;> simp [ofCheck]

theorem bind_eq_ok_iff {ε : Type} {x : Except ε α} {f : α → Except ε β} {b : β} :
    (x >>= f) = .ok b ↔ ∃ a, x = .ok a ∧ f a = .ok b := by
  cases x with
  | error e => exact ⟨fun h => (by cases h), fun ⟨_, h, _⟩ => (by cases h)⟩
  | ok a => exact ⟨fun h => ⟨a, rfl, h⟩, fun ⟨_, h, h'⟩ => by cases h; exact h'⟩

/-- What comes after a check is done if the check is passed. -/
theorem check_bind_eq_ok_iff {ε : Type} {x : Except ε Unit} {y : Except ε β} {b : β} :
    (x >>= fun _ => y) = .ok b ↔ x = .ok () ∧ y = .ok b :=
  bind_eq_ok_iff.trans ⟨fun ⟨_, h⟩ => h, fun h => ⟨(), h⟩⟩

end Failure

namespace Plan

open Failure (bind_eq_ok_iff ofCheck_eq_ok_iff)

variable {α β : Type}

/-- What the plan comes to on tables that nobody else changes. -/
def alone : Plan α → Tables → Stream' Int → Except Failure (Outcome α)
  | done a, t, ids => .ok ⟨a, [], [], t, ids⟩
  | fail e, _, _ => .error e
  | lock key next, t, ids => do
    Failure.ofCheck (t.require key.table key.id)
    return (← next.alone t ids).after [key] []
  | call c next, t, ids => do
    let (ms, r) ← Failure.ofCheck (c.effect t ids.head)
    let t' ← Failure.ofCheck (t.replay ms)
    return (← (next r).alone t' (c.idsAfter ids)).after [] ms

/-- The tables after the plan was run alone: those before it where it
fails. -/
def tablesAfter (p : Plan α) (t : Tables) (ids : Stream' Int) : Tables :=
  match p.alone t ids with
  | .ok o => o.tables
  | .error _ => t

variable {t : Tables} {ids : Stream' Int} {o : Outcome α}

theorem tablesAfter_of_ok {p : Plan α} (h : p.alone t ids = .ok o) :
    p.tablesAfter t ids = o.tables := by
  unfold tablesAfter
  rw [h]

/-! ## Step by step -/

theorem alone_done {a : α} : (done a).alone t ids = .ok o ↔ o = ⟨a, [], [], t, ids⟩ := by
  rw [alone, Except.ok.injEq, eq_comm]

theorem alone_fail {e : Failure} : ¬ (fail e : Plan α).alone t ids = .ok o := by
  rw [alone]
  exact fun h => (by cases h)

@[simp] theorem alone_refuse {e : LedgerError} : ¬ (refuse e : Plan α).alone t ids = .ok o :=
  alone_fail

theorem alone_lock {key : RowKey} {next : Plan α} :
    (lock key next).alone t ids = .ok o ↔
      t.contains key.table key.id = true ∧
        ∃ o', next.alone t ids = .ok o' ∧ o = o'.after [key] [] := by
  rw [alone, bind_eq_ok_iff]
  simp only [bind_eq_ok_iff]
  constructor
  · rintro ⟨⟨⟩, hr, o', h, ho⟩
    exact ⟨Tables.require_eq_ok_iff.1 (ofCheck_eq_ok_iff.1 hr), o', h, (Except.ok.inj ho).symm⟩
  · rintro ⟨hc, o', h, rfl⟩
    exact ⟨(), ofCheck_eq_ok_iff.2 (Tables.require_eq_ok_iff.2 hc), o', h, rfl⟩

theorem alone_call {c : Call} {next : c.Reply → Plan α} :
    (call c next).alone t ids = .ok o ↔
      ∃ ms r t' o', c.effect t ids.head = .ok (ms, r) ∧ t.replay ms = .ok t' ∧
        (next r).alone t' (c.idsAfter ids) = .ok o' ∧ o = o'.after [] ms := by
  rw [alone, bind_eq_ok_iff]
  simp only [bind_eq_ok_iff, ofCheck_eq_ok_iff, Prod.exists]
  constructor
  · rintro ⟨ms, r, he, t', ht, o', ho, hr⟩
    exact ⟨ms, r, t', o', he, ht, ho, (Except.ok.inj hr).symm⟩
  · rintro ⟨ms, r, t', o', he, ht, ho, rfl⟩
    exact ⟨ms, r, he, t', ht, o', ho, rfl⟩

/-- A question leaves everything as it is. -/
theorem alone_query {c : Call} {next : c.Reply → Plan α} {r : c.Reply}
    (hi : c.insertsInto? = none) (he : c.effect t ids.head = .ok ([], r)) :
    (call c next).alone t ids = .ok o ↔ (next r).alone t ids = .ok o := by
  have hids : c.idsAfter ids = ids := by simp [Call.idsAfter, hi]
  rw [alone_call, he]
  constructor
  · rintro ⟨ms, r', t', o', hr, ht, ho, rfl⟩
    cases hr
    cases ht
    rwa [hids] at ho
  · intro h
    exact ⟨[], r, t, o, rfl, rfl, by rwa [hids], rfl⟩

/-- A change writes what its effect says, if the tables respect that. -/
theorem alone_change {c : Call} {next : c.Reply → Plan α} {ms : List Mutation} {r : c.Reply}
    (he : c.effect t ids.head = .ok (ms, r)) :
    (call c next).alone t ids = .ok o ↔
      ∃ t' o', t.replay ms = .ok t' ∧ (next r).alone t' (c.idsAfter ids) = .ok o' ∧
        o = o'.after [] ms := by
  rw [alone_call, he]
  constructor
  · rintro ⟨ms', r', t', o', hr, h⟩
    cases hr
    exact ⟨t', o', h⟩
  · rintro ⟨t', o', h⟩
    exact ⟨ms, r, t', o', rfl, h⟩

theorem alone_bind {p : Plan β} {f : β → Plan α} :
    (p.bind f).alone t ids = .ok o ↔
      ∃ o₁ o₂, p.alone t ids = .ok o₁ ∧ (f o₁.answer).alone o₁.tables o₁.ids = .ok o₂ ∧
        o = o₂.after o₁.locked o₁.journal := by
  -- along the plan: every lock and every call is made before the second plan begins
  induction p generalizing t ids o with
  | done a =>
    simp only [bind, alone_done]
    constructor
    · intro h
      exact ⟨_, o, rfl, h, rfl⟩
    · rintro ⟨_, _, rfl, h, rfl⟩
      exact h
  | fail e =>
    simp only [bind, alone_fail, false_and, exists_false]
  | lock key next ih =>
    simp only [bind, alone_lock, ih]
    constructor
    · rintro ⟨hc, o', ⟨o₁, o₂, h₁, h₂, rfl⟩, rfl⟩
      exact ⟨_, o₂, ⟨hc, o₁, h₁, rfl⟩, h₂, o₂.after_after ..⟩
    · rintro ⟨_, o₂, ⟨hc, o₁, h₁, rfl⟩, h₂, rfl⟩
      exact ⟨hc, _, ⟨o₁, o₂, h₁, h₂, rfl⟩, (o₂.after_after ..).symm⟩
  | call c next ih =>
    simp only [bind, alone_call, ih]
    constructor
    · rintro ⟨ms, r, t', o', he, ht, ⟨o₁, o₂, h₁, h₂, rfl⟩, rfl⟩
      exact ⟨_, o₂, ⟨ms, r, t', o₁, he, ht, h₁, rfl⟩, h₂, o₂.after_after ..⟩
    · rintro ⟨_, o₂, ⟨ms, r, t', o₁, he, ht, h₁, rfl⟩, h₂, rfl⟩
      exact ⟨ms, r, t', _, he, ht, ⟨o₁, o₂, h₁, h₂, rfl⟩, (o₂.after_after ..).symm⟩

/-- **The journal says it all**: replaying it makes of the tables what the
plan made of them. -/
theorem replay_journal {p : Plan α} (h : p.alone t ids = .ok o) :
    t.replay o.journal = .ok o.tables := by
  induction p generalizing t ids o with
  | done a =>
    rw [alone_done.1 h]
    rfl
  | fail e => exact absurd h alone_fail
  | lock key next ih =>
    obtain ⟨-, o', ho, rfl⟩ := alone_lock.1 h
    have hreplay : t.replay o'.journal = .ok o'.tables := ih ho
    exact hreplay
  | call c next ih =>
    obtain ⟨ms, r, t', o', -, ht, ho, rfl⟩ := alone_call.1 h
    exact Tables.replay_append.2 ⟨t', ht, ih r ho⟩

/-! ## Rows that have to exist -/

theorem alone_ofExcept {x : Except Failure β} {f : β → Plan α} :
    ((ofExcept x).bind f).alone t ids = .ok o ↔ ∃ b, x = .ok b ∧ (f b).alone t ids = .ok o := by
  cases x with
  | ok b => simp [ofExcept, bind]
  | error e => simp [ofExcept, bind, alone_fail]

theorem alone_orRefuse {e : LedgerError} {x : Option β} {f : β → Plan α} :
    ((orRefuse e x).bind f).alone t ids = .ok o ↔ ∃ b, x = some b ∧ (f b).alone t ids = .ok o := by
  cases x with
  | some b => simp [orRefuse, bind]
  | none => simp [orRefuse, bind, refuse, alone_fail]

theorem alone_user {id : Int} {f : User → Plan α} :
    ((user id).bind f).alone t ids = .ok o ↔
      ∃ u, t.users.find? id = some u ∧ (f u).alone t ids = .ok o :=
  (alone_query rfl rfl).trans alone_orRefuse

theorem alone_group {id : Int} {f : Group → Plan α} :
    ((group id).bind f).alone t ids = .ok o ↔
      ∃ g, t.groups.find? id = some g ∧ (f g).alone t ids = .ok o :=
  (alone_query rfl rfl).trans alone_orRefuse

theorem alone_member {id : Int} {f : Member → Plan α} :
    ((member id).bind f).alone t ids = .ok o ↔
      ∃ m, t.members.find? id = some m ∧ (f m).alone t ids = .ok o :=
  (alone_query rfl rfl).trans alone_orRefuse

theorem alone_expense {id : Int} {f : Expense → Plan α} :
    ((expense id).bind f).alone t ids = .ok o ↔
      ∃ e, t.expenses.find? id = some e ∧ (f e).alone t ids = .ok o :=
  (alone_query rfl rfl).trans alone_orRefuse

end Plan

end SharedLedger
