import SharedLedger.Proofs.Kept
import SharedLedger.Proofs.Alone
import SharedLedger.Proofs.ReadOnly

/-!
# Plans that lock before they write

A plan that is given a lock has its view brought up to date, and goes on from
there as if it had seen the new tables all along. For that it must not have
written anything yet, and what it has read must not have misled it: begun on
the new tables it would ask for the same lock. Besides, all plans take their
locks in one order, that of `Table.rank`. `Plan.Guarded` says all this.
What it is good for: from the last lock on (`Plan.Stage`), what is left of the
plan does what the whole plan does on the tables of that moment.
-/

namespace SharedLedger

/-- Only calls that insert a row look at the id they are offered. -/
theorem Call.effect_congr {c : Call} (h : c.insertsInto? = none) (t : Tables) (m n : Int) :
    c.effect t m = c.effect t n := by
  cases c <;> first | rfl | cases h

/-- Where the rows of a table stand in the order in which they are locked. -/
def Table.rank : Table → ℕ
  | .expenses => 0
  | .users | .groups | .members | .shares => 1

namespace Plan

open Tables

variable {α β : Type} {V T : Tables} {ls : List RowKey} {key : RowKey} {ids : Stream' Int}

/-! ## Where locks stand -/

/-- A plan that asks for no lock. -/
inductive Unlocked : Plan α → Prop
  | done (a : α) : Unlocked (.done a)
  | fail (e : Failure) : Unlocked (.fail e)
  | call {c : Call} {next : c.Reply → Plan α} (h : ∀ r, (next r).Unlocked) : Unlocked (.call c next)

theorem Unlocked.bind {p : Plan α} {f : α → Plan β} (hp : p.Unlocked) (hf : ∀ a, (f a).Unlocked) :
    (p.bind f).Unlocked := by
  induction hp with
  | done a => exact hf a
  | fail e => exact .fail e
  | call _ ih => exact .call ih

theorem ReadOnly.unlocked {p : Plan α} (h : p.ReadOnly) : p.Unlocked := by
  induction h with
  | done a => exact .done a
  | fail e => exact .fail e
  | call _ _ ih => exact .call ih

theorem unlocked_ask (c : Call) : (ask c).Unlocked := .call .done

/-- A plan that asks for no locks but those of `K`. -/
inductive LocksOnly (K : RowKey → Prop) : Plan α → Prop
  | done (a : α) : LocksOnly K (.done a)
  | fail (e : Failure) : LocksOnly K (.fail e)
  | lock {key : RowKey} {next : Plan α} (hk : K key) (h : next.LocksOnly K) :
      LocksOnly K (.lock key next)
  | call {c : Call} {next : c.Reply → Plan α} (h : ∀ r, (next r).LocksOnly K) :
      LocksOnly K (.call c next)

variable {K : RowKey → Prop}

theorem locksOnly_of_forall (hK : ∀ key, K key) (p : Plan α) : p.LocksOnly K := by
  induction p with
  | done a => exact .done a
  | fail e => exact .fail e
  | lock key _ ih => exact .lock (hK key) ih
  | call c _ ih => exact .call ih

theorem Unlocked.locksOnly {p : Plan α} (h : p.Unlocked) : p.LocksOnly K := by
  induction h with
  | done a => exact .done a
  | fail e => exact .fail e
  | call _ ih => exact .call ih

theorem locksOnly_hold_bind {table : Table} {id : Int} {f : Unit → Plan α} (hk : K ⟨table, id⟩)
    (hf : ∀ u, (f u).Unlocked) : ((hold table id).bind f).LocksOnly K :=
  .lock hk (hf ()).locksOnly

/-- A plan that asks for locks while it has only looked around. -/
inductive LocksFirst : Plan α → Prop
  | unlocked {p : Plan α} (h : p.Unlocked) : LocksFirst p
  | lock (key : RowKey) {next : Plan α} (h : next.LocksFirst) : LocksFirst (.lock key next)
  | read {c : Call} {next : c.Reply → Plan α} (hi : c.insertsInto? = none)
      (hc : ∀ t n, ∃ r, c.effect t n = .ok ([], r)) (h : ∀ r, (next r).LocksFirst) :
      LocksFirst (.call c next)

/-- After a lock a plan may still ask for more. -/
theorem LocksFirst.of_lock {next : Plan α} (h : (Plan.lock key next).LocksFirst) :
    next.LocksFirst := by
  cases h with
  | unlocked h => cases h
  | lock _ h => exact h

/-- Whether a plan comes to something, with some ids. -/
def Viable (p : Plan α) (t : Tables) : Prop := ∃ ids o, p.alone t ids = .ok o

/-! ## What was seen so far -/

/-- What is left of a plan that has looked around on the tables `V` and locked
the given rows. -/
inductive Path (V : Tables) : Plan α → List RowKey → Plan α → Prop
  | here (p : Plan α) : Path V p [] p
  | lock {key : RowKey} {next rest : Plan α} {ls : List RowKey}
      (hc : V.contains key.table key.id = true) (h : Path V next ls rest) :
      Path V (.lock key next) (key :: ls) rest
  | read {c : Call} {next : c.Reply → Plan α} {r : c.Reply} {rest : Plan α} {ls : List RowKey}
      (hi : c.insertsInto? = none) (he : ∀ n, c.effect V n = .ok ([], r))
      (h : Path V (next r) ls rest) : Path V (.call c next) ls rest

namespace Path

variable {p rest : Plan α}

/-- Taking one more lock. -/
theorem locked (hc : V.contains key.table key.id = true) (h : Path V p ls (.lock key rest)) :
    Path V p (ls ++ [key]) rest := by
  -- the end of the path is an index, so it is named before the induction on the path
  generalize hq : Plan.lock key rest = q at h
  induction h with
  | here => exact hq ▸ .lock hc (.here rest)
  | lock hc' _ ih => exact .lock hc' (ih hq)
  | read hi he _ ih => exact .read hi he (ih hq)

/-- Asking one more question. -/
theorem asked {c : Call} {next : c.Reply → Plan α} {r : c.Reply} (hi : c.insertsInto? = none)
    (he : ∀ n, c.effect V n = .ok ([], r)) (h : Path V p ls (.call c next)) :
    Path V p ls (next r) := by
  generalize hq : Plan.call c next = q at h
  induction h with
  | here => exact hq ▸ .read hi he (.here (next r))
  | lock hc' _ ih => exact .lock hc' (ih hq)
  | read hi' he' _ ih => exact .read hi' he' (ih hq)

/-- Rows that were locked exist. -/
theorem contains (h : Path V p ls rest) : ∀ key ∈ ls, V.contains key.table key.id = true := by
  induction h with
  | here => exact fun key hkey => absurd hkey List.not_mem_nil
  | lock hc _ ih =>
    rintro key (_ | ⟨_, hkey⟩)
    · exact hc
    · exact ih key hkey
  | read _ _ _ ih => exact ih

/-- The plan comes to what its rest comes to. -/
theorem alone {o : Outcome α} (h : Path V p ls rest) (ho : rest.alone V ids = .ok o) :
    p.alone V ids = .ok (o.after ls []) := by
  induction h with
  | here => exact ho
  | lock hc _ ih => exact alone_lock.2 ⟨hc, _, ih ho, (o.after_after [_] _ [] []).symm⟩
  | read hi he _ ih => exact (alone_query hi (he _)).2 (ih ho)

/-- No lock turns up in a plan that asks for none. -/
theorem not_lock (hp : p.Unlocked) (h : Path V p ls (.lock key rest)) : False := by
  generalize hq : Plan.lock key rest = q at h
  induction h with
  | here =>
    subst hq
    cases hp
  | lock _ _ _ => cases hp
  | read _ _ _ ih =>
    obtain _ | _ | hp := hp
    exact ih (hp _) hq

end Path

/-- On newer tables, begun again, the plan would ask for the same lock, unless
there is nothing left to do. -/
def Restarts (p : Plan α) : Prop :=
  ∀ {V T : Tables} {ls : List RowKey} {key : RowKey} {rest : Plan α},
    Path V p ls (.lock key rest) → Base ls V T → T.contains key.table key.id = true →
    Path T p ls (.lock key rest) ∨ (rest.Unlocked ∧ ¬ rest.Viable T)

/-- Every lock is of a higher rank than those before it. -/
def Ascends (p : Plan α) : Prop :=
  ∀ {V : Tables} {ls : List RowKey} {key : RowKey} {rest : Plan α},
    Path V p ls (.lock key rest) → ∀ k ∈ ls, k.table.rank < key.table.rank

/-- **A plan that locks before it writes**, in the order of the ranks, and only
rows it would lock on newer tables as well. -/
structure Guarded (p : Plan α) : Prop where
  locksFirst : p.LocksFirst
  restarts : p.Restarts
  ascends : p.Ascends

/-! ## The plans there are -/

theorem guarded_of_unlocked {p : Plan α} (h : p.Unlocked) : p.Guarded where
  locksFirst := .unlocked h
  restarts hpath _ _ := (hpath.not_lock h).elim
  ascends hpath := (hpath.not_lock h).elim

theorem ReadOnly.guarded {p : Plan α} (h : p.ReadOnly) : p.Guarded := guarded_of_unlocked h.unlocked

/-- One lock, right away. -/
theorem guarded_hold_bind {table : Table} {id : Int} {f : Unit → Plan α}
    (hf : ∀ u, (f u).Unlocked) : ((hold table id).bind f).Guarded where
  locksFirst := .lock _ (.unlocked (hf ()))
  restarts hpath _ _ := by
    cases hpath with
    | here => exact .inl (.here _)
    | lock _ h => exact (h.not_lock (hf ())).elim
  ascends hpath := by
    cases hpath with
    | here => simp
    | lock _ h => exact (h.not_lock (hf ())).elim

end Plan

open Plan Tables in
/-- A member stays in its group, so it is the same group that has to be
locked. -/
theorem Group.guarded_lockedMember_bind {α : Type} {id : Int} {f : Member → Plan α}
    (hf : ∀ m, (f m).Unlocked) : ((lockedMember id).bind f).Guarded where
  locksFirst := by
    refine .read rfl (fun _ _ => ⟨_, rfl⟩) fun m => ?_
    cases m with
    | none => exact .unlocked (.fail _)
    | some m => exact .lock _ (.unlocked ((readOnly_member id).unlocked.bind hf))
  restarts {V T ls key rest} hpath hb hc := by
    obtain _ | _ | ⟨hi, he, hpath⟩ := hpath
    obtain ⟨-, rfl⟩ := Prod.mk.inj (Except.ok.inj (he 0))
    cases hm : V.members.find? id with
    | none =>
      rw [hm] at hpath
      exact (hpath.not_lock (.fail _)).elim
    | some m =>
      rw [hm] at hpath
      cases hpath with
      | lock _ h => exact (h.not_lock ((readOnly_member id).unlocked.bind hf)).elim
      | here =>
        -- the group to be locked was read off the member, and is now read off it again
        cases hm' : T.members.find? id with
        | none =>
          refine .inr ⟨(readOnly_member id).unlocked.bind hf, ?_⟩
          rintro ⟨ids, o, ho⟩
          obtain ⟨m', hfind, -⟩ := alone_member.1 ho
          rw [hm'] at hfind
          cases hfind
        | some m' =>
          have hid : m'.id = m.id := (Index.key_of_find? hm').trans (Index.key_of_find? hm).symm
          have hg : m'.groupId = m.groupId :=
            hb.descends.member m (Index.mem_of_find? hm) m' (Index.mem_of_find? hm') hid
          refine .inl (.read (r := some m') rfl (fun _ => by rw [← hm']; rfl) ?_)
          rw [← hg]
          exact .here _
  ascends {V ls key rest} hpath := by
    obtain _ | _ | ⟨-, -, hpath⟩ := hpath
    rename_i r
    cases r with
    | none => exact (hpath.not_lock (.fail _)).elim
    | some m =>
      cases hpath with
      | here => simp
      | lock _ h => exact (h.not_lock ((readOnly_member id).unlocked.bind hf)).elim

open Plan Tables in
/-- An expense that is locked stays in its group, so it is the same group that
has to be locked. -/
theorem Expense.guarded_locked_bind {α : Type} {id : Int} {f : Expense → Plan α}
    (hf : ∀ e, (f e).Unlocked) : ((locked id).bind f).Guarded where
  locksFirst := by
    refine .lock _ (.read rfl (fun _ _ => ⟨_, rfl⟩) fun e => ?_)
    cases e with
    | none => exact .unlocked (.fail _)
    | some e => exact .lock _ (.unlocked (hf e))
  restarts {V T ls key rest} hpath hb hc := by
    cases hpath with
    | here => exact .inl (.here _)
    | lock hce hpath =>
      obtain _ | _ | ⟨hi, he, hpath⟩ := hpath
      obtain ⟨-, rfl⟩ := Prod.mk.inj (Except.ok.inj (he 0))
      cases he' : V.expenses.find? id with
      | none =>
        rw [he'] at hpath
        exact (hpath.not_lock (.fail _)).elim
      | some e =>
        rw [he'] at hpath
        cases hpath with
        | lock _ h => exact (h.not_lock (hf e)).elim
        | here =>
          have hkept : ExpenseKept V T id := hb.kept ⟨.expenses, id⟩ (List.mem_singleton_self _)
          -- the expense is locked by now: it could only go together with its group
          rcases hkept with ⟨hrow, -⟩ | ⟨-, hgone⟩
          · have hfind : T.expenses.find? id = some e := hrow.trans he'
            refine .inl (.lock (Index.contains_eq_true_iff.2 ⟨e, hfind⟩) ?_)
            exact .read (r := some e) rfl (fun _ => by rw [← hfind]; rfl) (.here _)
          · have hg : T.groups.contains e.groupId = true := hc
            rw [hgone e he'] at hg
            cases hg
  -- the expense comes first and its group second
  ascends {V ls key rest} hpath := by
    cases hpath with
    | here => simp
    | lock _ hpath =>
      obtain _ | _ | ⟨-, -, hpath⟩ := hpath
      rename_i r
      cases r with
      | none => exact (hpath.not_lock (.fail _)).elim
      | some e =>
        cases hpath with
        | here => simp [Table.rank]
        | lock _ h => exact (h.not_lock (hf e)).elim

end SharedLedger
