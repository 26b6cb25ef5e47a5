import SharedLedger.Proofs.Moments
import SharedLedger.Proofs.Success

/-!
# Accounts that are gone

Once an account was deleted it is gone for good (`System.Reachable.gone`). Its
id was used up, and an id that was used up and is not that of an account never
becomes one again, whoever does what (`System.Gone.step`). As members are
linked to accounts that exist, nobody is linked to it either.
-/

namespace SharedLedger

open Tables Operation

/-- No account of the given id, and nobody linked to it. -/
structure Tables.Lacks (t : Tables) (u : Int) : Prop where
  no_account : t.users.contains u = false
  no_member : ∀ m ∈ t.members.toList, m.userId ≠ some u

theorem Tables.Consistent.lacks {t : Tables} {u : Int} (h : t.Consistent)
    (hu : t.users.contains u = false) : t.Lacks u where
  no_account := hu
  no_member m hm hlinked := by
    rw [h.member_user m hm u hlinked] at hu
    cases hu

/-! ## For good -/

namespace Run

variable {α : Type} {client : Client} {s s' : Store} {run run' : Run α}

/-- A success is an old one, one that some error was answered with, or that of
a commit. -/
theorem Turn.ok_cases (h : Turn client s run s' run') {a : α} (hr : run'.result? = some (.ok a)) :
    run.result? = some (.ok a) ∨
      (∃ (β : Type) (body : Plan β) (next : Except LedgerError β → Operation α) (e : LedgerError),
        run = outside (.transaction body next) ∧ next (.error e) = .done (.ok a)) ∨
      (∃ (β : Type) (t : Txn) (plan : Plan β) (next : Except LedgerError β → Operation α)
        (e : LedgerError), run = inside t plan next ∧ next (.error e) = .done (.ok a)) ∨
      ∃ (β : Type) (t : Txn) (b : β) (next : Except LedgerError β → Operation α),
        run = inside t (.done b) next ∧ next (.ok b) = .done (.ok a) ∧
          s.tables.replay t.journal = .ok s'.tables := by
  have ended {op : Operation α} (hr : (outside op).result? = some (.ok a)) : op = .done (.ok a) :=
    outside.inj (result?_eq_some_iff.1 hr)
  cases h with
  | finished => exact .inl hr
  | refused => exact .inr (.inl ⟨_, _, _, _, rfl, ended hr⟩)
  | lost | rolledBack => exact .inr (.inr (.inl ⟨_, _, _, _, _, rfl, ended hr⟩))
  | @committed _ t b next _ tables hv hb =>
    have ht : s'.tables = tables := congrArg Books.tables hb
    exact .inr (.inr (.inr ⟨_, t, b, next, rfl, ended hr, ht ▸ hv⟩))
  | overflowed | opened | held | asked | locked | granted | still | denied | called | failed => cases hr

end Run

/-- Deleting one's own account is a single transaction. -/
theorem Account.delete_eq (u : Int) : Account.delete u u = single (Account.deletion u) := by
  have hself : Account.requireSelf u u = .ok () := if_pos rfl
  unfold Account.delete
  rw [hself]
  rfl

theorem Account.once_delete (caller u : Int) :
    (Account.delete caller u).Once (Account.deletion u) :=
  once_ofCheck_bind fun _ _ => .once

/-- Whoever is in a transaction was led there. -/
theorem Run.Sound.exists_leads {α β : Type} {op : Operation α} {old : Int → Prop} {s : Store}
    {opened : Option (Σ β : Type, Plan β)} {drawn : List Int} {t : Txn} {plan : Plan β}
    {next : Except LedgerError β → Operation α}
    (h : Sound op old s opened drawn (.inside t plan next)) :
    ∃ body : Plan β, op.Leads (.transaction body next) := by
  obtain _ | ⟨-, hl, -, -⟩ | hl := h
  · exact ⟨_, hl⟩
  · exact ⟨_, hl⟩

/-- The session has deleted the account of its caller. -/
def Session.HasDeleted (x : Session) (u : Int) : Prop :=
  ∃ client now run opened drawn, x = ⟨client, now, .deleteUser u u, run, opened, drawn⟩ ∧
    run.result? = some (.ok ())

namespace System

variable {service : Service} {sys sys' : System} {i : Nat} {x : Session} {u : Int}

/-- An id that was used up, and is not that of an account. -/
structure Gone (sys : System) (u : Int) : Prop where
  old : sys.Old u
  no_account : sys.store.tables.users.contains u = false

/-- **What is gone stays gone**, whatever happens. -/
theorem Gone.step (hg : sys.Gone u) (h : Sound service sys) (hs : Step service sys sys') :
    sys'.Gone u := by
  obtain ⟨⟨new, held, hc, hnew, -⟩, hold⟩ := h.step_changes hs
  refine ⟨hold u hg.old, ?_⟩
  by_contra hnot
  have hin : sys'.store.tables.contains .users u = true := Bool.eq_true_of_not_eq_false hnot
  rcases hc.contains hin with hnew' | hin'
  · exact hnew u hg.old hnew'
  · exact Bool.eq_false_iff.1 hg.no_account hin'

/-- When the deletion of an account is committed, the account is gone. -/
theorem Sound.gone_of_commit (h : Sound service sys) {client : Client} {now : Nat}
    {opened : Option (Σ β : Type, Plan β)} {drawn : List Int} {β : Type} {t : Txn} {b : β}
    {next : Except LedgerError β → Operation Unit}
    (hx : sys.sessions i =
      some ⟨client, now, .deleteUser u u, .inside t (.done b) next, opened, drawn⟩)
    {T : Tables} (hv : sys.store.tables.replay t.journal = .ok T) :
    sys.Old u ∧ T.users.contains u = false := by
  obtain _ | ⟨-, hl, hstage, -⟩ := (h.session i _ hx).run
  obtain ⟨V, hf, halone⟩ := hstage.concluded
  have hl : (Account.delete u u).Leads (.transaction _ next) := hl
  obtain hop | ⟨_, hop⟩ := (Account.once_delete u u).leads hl
  · cases hop
    obtain ⟨hin, ho⟩ := Account.alone_deletion.1 (halone (.const 0))
    have hj : t.journal = [.unlinkUser u, .delete .users u] := congrArg Outcome.journal ho
    rw [hj] at hv
    cases hv
    refine ⟨hf.known .users u hin, Index.contains_eq_false_iff.2 ?_⟩
    exact (Index.find?_erase ..).trans (if_pos rfl)
  · cases hop

/-- The step with which a deletion succeeds. -/
theorem Sound.gone_of_turn (h : Sound service sys) {client : Client} {now : Nat}
    {run run' : Run Unit} {opened : Option (Σ β : Type, Plan β)} {drawn : List Int}
    (hx : sys.sessions i = some ⟨client, now, .deleteUser u u, run, opened, drawn⟩)
    (hwas : run.result? = some (.ok ()) → sys.Gone u) {s' : Store}
    (ht : Run.Turn client sys.store run s' run') (hr : run'.result? = some (.ok ())) :
    sys.Gone u ∨ (sys.Old u ∧ s'.tables.users.contains u = false) := by
  have hsound := (h.session i _ hx).run
  rcases ht.ok_cases hr with hr | ⟨β, body, next, e, rfl, hnext⟩ | ⟨β, t, plan, next, e, rfl, hnext⟩ |
    ⟨β, t, b, next, rfl, -, hv⟩
  · exact .inl (hwas hr)
  · obtain ⟨hl⟩ | _ := hsound
    obtain ⟨_, herror⟩ := ((Account.once_delete u u).concludes hl).2 e
    cases herror.symm.trans hnext
  · obtain ⟨body, hl⟩ := hsound.exists_leads
    obtain ⟨_, herror⟩ := ((Account.once_delete u u).concludes hl).2 e
    cases herror.symm.trans hnext
  · exact .inr (h.gone_of_commit hx hv)

/-- A session takes a turn, with the account gone before or with this step. -/
theorem Sound.gone_moved (h : Sound service sys) (hs : Step service sys sys')
    (hx : sys.sessions i = some x) (hwas : x.HasDeleted u → sys.Gone u) {run' : Run x.command.Reply}
    (ht : Run.Turn x.client sys.store x.run sys'.store run')
    (hd : (x.moved sys.store sys'.store run').HasDeleted u) : sys'.Gone u := by
  obtain ⟨client, now, c, run, opened, drawn⟩ := x
  obtain ⟨_, _, _, _, _, he, hr⟩ := hd
  cases he
  rcases h.gone_of_turn hx (fun hr => hwas ⟨_, _, _, _, _, rfl, hr⟩) ht hr with hg | ⟨hu, hno⟩
  · exact hg.step h hs
  · exact ⟨(h.step_changes hs).old u hu, hno⟩

/-- **Whose deletion has succeeded is gone.** -/
theorem Reachable.gone (h : Reachable service sys) (hx : sys.sessions i = some x)
    (hd : x.HasDeleted u) : sys.Gone u := by
  induction h generalizing i x with
  | initial => cases hx
  | step h hs ih =>
    rcases h.sound.session_cases hs hx with ⟨hx, -⟩ | ⟨-, client, now, c, rfl⟩ | ⟨y, run', hy, ht, rfl⟩
    · exact (ih hx hd).step h.sound hs
    · -- a deletion that was just given has no result yet
      obtain ⟨_, _, _, _, _, he, hr⟩ := hd
      cases he
      cases (Account.delete_eq u).symm.trans (Run.outside.inj (Run.result?_eq_some_iff.1 hr))
    · exact h.sound.gone_moved hs hy (ih hy) ht hd

end System

end SharedLedger
