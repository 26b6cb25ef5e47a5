import SharedLedger.Proofs.Consistency
import Mathlib.Logic.Relation

/-!
# Changes under locks

A commit changes the committed tables by a few elementary steps
(`Tables.Change`), each of which is covered by a lock or concerns a row that
nobody knows yet: `held` are the rows the committing transaction has locked,
`new` the ids it drew. Every such step keeps the tables consistent
(`Change.consistent`), gives no row to another group (`Change.evolves`), and
leaves alone what somebody else's lock stands for (`Change.kept`). `Kept` says
what that is: the account of a locked account; the row, the members and
everything else of a locked group, except that members lose accounts that are
deleted; the row and the shares of a locked expense, unless the whole group
is deleted.
-/

namespace SharedLedger

namespace Tables

variable {t t' t'' : Tables}

/-- **An elementary step of a commit**, for one who drew the ids `new` and has
locked the rows `held`. -/
inductive Change (new : Int → Prop) (held : RowKey → Prop) (t : Tables) : Tables → Prop
  | putUser (u : User)
      (hid : new u.id ∨ (held ⟨.users, u.id⟩ ∧ t.users.contains u.id = true))
      (hemail : ∀ v ∈ t.users.toList, v.email = u.email → v.id = u.id) :
      Change new held t { t with users := t.users.put u }
  | dropUser (id : Int) (hid : held ⟨.users, id⟩) : Change new held t (dropUser t id)
  | putGroup (g : Group)
      (hid : new g.id ∨ (held ⟨.groups, g.id⟩ ∧ t.groups.contains g.id = true)) :
      Change new held t { t with groups := t.groups.put g }
  | putMember (m : Member)
      (hid : (new m.id ∧ t.members.contains m.id = false) ∨
        ∃ o, t.members.find? m.id = some o ∧ o.groupId = m.groupId)
      (hg : new m.groupId ∨ held ⟨.groups, m.groupId⟩)
      (hok : t.check (.put (.member m)) = .ok ()) :
      Change new held t { t with members := t.members.put m }
  | dropMembers (g : Int) (hg : held ⟨.groups, g⟩) (hno : ∀ e ∈ t.expenses.toList, e.groupId ≠ g) :
      Change new held t (t.dropMembers fun m => m.groupId == g)
  | dropGroup (g : Int) (hg : held ⟨.groups, g⟩) : Change new held t (dropGroup t g)
  | putExpense (e : Expense)
      (hid : (new e.id ∧ t.expenses.contains e.id = false) ∨
        (held ⟨.expenses, e.id⟩ ∧ ∃ o, t.expenses.find? e.id = some o ∧ o.groupId = e.groupId ∧
          (t.sharesOf e.id = [] ∨ o.amount.value = e.amount.value)))
      (hg : held ⟨.groups, e.groupId⟩) (hrow : t.groups.contains e.groupId = true)
      (hpayer : t.HasMember e.groupId e.paidBy) (hamount : 0 ≤ e.amount.value) :
      Change new held t { t with expenses := t.expenses.put e }
  | dropShares (id : Int) (hid : new id ∨ held ⟨.expenses, id⟩) :
      Change new held t (t.dropShares fun s => s.expenseId == id)
  | putShares (e : Expense) (ss : List Share) (hid : new e.id ∨ held ⟨.expenses, e.id⟩)
      (hg : held ⟨.groups, e.groupId⟩) (he : t.expenses.find? e.id = some e)
      (hnone : t.sharesOf e.id = []) (hnew : ∀ s ∈ ss, new s.id ∧ t.shares.contains s.id = false)
      (hasc : ss.Pairwise fun a b => a.id < b.id)
      (hfit : ∀ s ∈ ss, s.expenseId = e.id ∧ s.Fits e.amount ∧
        ∀ m, s.owedBy = some m → t.HasMember e.groupId m)
      (hfull : Sharing.Full e.amount ss) : Change new held t (putShares t ss)
  | eraseExpense (id : Int) (hid : held ⟨.expenses, id⟩) (hnone : t.sharesOf id = []) :
      Change new held t { t with expenses := t.expenses.erase id }

/-- Any number of such steps. -/
def Changes (new : Int → Prop) (held : RowKey → Prop) : Tables → Tables → Prop :=
  Relation.ReflTransGen (Change new held)

variable {new : Int → Prop} {held : RowKey → Prop}

/-- More ids and more locks allow more. -/
theorem Change.mono {new' : Int → Prop} {held' : RowKey → Prop} (hn : ∀ id, new id → new' id)
    (hh : ∀ key, held key → held' key) (h : Change new held t t') : Change new' held' t t' := by
  cases h with
  | putUser u hid hemail => exact .putUser u (hid.imp (hn _) (.imp_left (hh _))) hemail
  | dropUser id hid => exact .dropUser id (hh _ hid)
  | putGroup g hid => exact .putGroup g (hid.imp (hn _) (.imp_left (hh _)))
  | putMember m hid hg hok =>
    exact .putMember m (hid.imp_left (.imp_left (hn _))) (hg.imp (hn _) (hh _)) hok
  | dropMembers g hg hno => exact .dropMembers g (hh _ hg) hno
  | dropGroup g hg => exact .dropGroup g (hh _ hg)
  | putExpense e hid hg hrow hpayer hamount =>
    exact .putExpense e (hid.imp (.imp_left (hn _)) (.imp_left (hh _))) (hh _ hg) hrow hpayer hamount
  | dropShares id hid => exact .dropShares id (hid.imp (hn _) (hh _))
  | putShares e ss hid hg he hnone hnew hasc hfit hfull =>
    exact .putShares e ss (hid.imp (hn _) (hh _)) (hh _ hg) he hnone
      (fun s hs => (hnew s hs).imp_left (hn _)) hasc hfit hfull
  | eraseExpense id hid hnone => exact .eraseExpense id (hh _ hid) hnone

theorem Changes.mono {new' : Int → Prop} {held' : RowKey → Prop} (hn : ∀ id, new id → new' id)
    (hh : ∀ key, held key → held' key) (h : Changes new held t t') : Changes new' held' t t' :=
  Relation.ReflTransGen.mono (fun _ _ hc => Change.mono hn hh hc) _ _ h

/-- **The invariant of the tables is kept.** -/
theorem Change.consistent (h : Change new held t t') (ht : t.Consistent) : t'.Consistent := by
  cases h with
  | putUser u _ hemail => exact ht.putUser hemail
  | dropUser id _ => exact ht.dropUser_of id
  | putGroup g _ => exact ht.putGroup g
  | putMember m hid _ hok =>
    refine ht.putMember (fun o ho => ?_) hok
    rcases hid with ⟨-, hnew⟩ | ⟨o', ho', hg⟩
    · rw [Index.contains_eq_false_iff.1 hnew] at ho
      cases ho
    · rw [ho'] at ho
      cases ho
      exact hg
  | dropMembers g _ hno => exact ht.dropMembers_of hno
  | dropGroup g _ => exact ht.dropGroup_of g
  | putExpense e hid _ hrow hpayer hamount =>
    refine ht.putExpense hrow hpayer hamount fun o ho => ?_
    rcases hid with ⟨-, hnew⟩ | ⟨-, o', ho', hg⟩
    · rw [Index.contains_eq_false_iff.1 hnew] at ho
      cases ho
    · rw [ho'] at ho
      cases ho
      exact hg
  | dropShares id _ => exact ht.dropShares_of id
  | putShares e ss _ _ he hnone hnew hasc hfit hfull =>
    exact ht.putShares_of he hnone (fun s hs => (hnew s hs).2) hasc hfit hfull
  | eraseExpense id _ hnone => exact ht.eraseExpense hnone

theorem Changes.of_eq (h : t' = t) : Changes new held t t' := h ▸ .refl

theorem Changes.consistent (h : Changes new held t t') (ht : t.Consistent) : t'.Consistent := by
  induction h with
  | refl => exact ht
  | tail _ hc ih => exact hc.consistent ih

/-! ## Where rows come from -/

/-- Rows are new or were there before; members and expenses stay in their
group, and shares stay what they are. -/
structure Evolves (new : Int → Prop) (t t' : Tables) : Prop where
  user : ∀ u ∈ t'.users.toList, new u.id ∨ t.users.contains u.id = true
  group : ∀ g ∈ t'.groups.toList, new g.id ∨ t.groups.contains g.id = true
  member : ∀ m ∈ t'.members.toList, new m.id ∨
    ∃ o ∈ t.members.toList, o.id = m.id ∧ o.groupId = m.groupId
  expense : ∀ e ∈ t'.expenses.toList, new e.id ∨
    ∃ o ∈ t.expenses.toList, o.id = e.id ∧ o.groupId = e.groupId
  share : ∀ s ∈ t'.shares.toList, new s.id ∨ s ∈ t.shares.toList

theorem Evolves.refl (new : Int → Prop) (t : Tables) : Evolves new t t where
  user _ h := .inr (Index.contains_of_mem h)
  group _ h := .inr (Index.contains_of_mem h)
  member m h := .inr ⟨m, h, rfl, rfl⟩
  expense e h := .inr ⟨e, h, rfl, rfl⟩
  share _ h := .inr h

theorem Change.evolves (h : Change new held t t') : Evolves new t t' := by
  have hr := Evolves.refl new t
  cases h with
  | putUser u hid _ =>
    refine { hr with user := fun v hv => ?_ }
    rcases (Index.mem_put _ _ _).1 hv with rfl | ⟨hv, -⟩
    · exact hid.imp id And.right
    · exact hr.user v hv
  | dropUser id _ =>
    refine { hr with
      user := fun v hv => hr.user v ((Index.mem_erase _ _ _).1 hv).1
      member := fun m hm => ?_ }
    obtain ⟨o, ho, rfl⟩ := mem_members_dropUser.1 hm
    refine .inr ⟨o, ho, ?_⟩
    split <;> exact ⟨rfl, rfl⟩
  | putGroup g hid =>
    refine { hr with group := fun k hk => ?_ }
    rcases (Index.mem_put _ _ _).1 hk with rfl | ⟨hk, -⟩
    · exact hid.imp id And.right
    · exact hr.group k hk
  -- a row that takes the place of another one is of the same group
  | putMember m hid _ _ =>
    refine { hr with member := fun o ho => ?_ }
    rcases (Index.mem_put _ _ _).1 ho with rfl | ⟨ho, -⟩
    · rcases hid with ⟨hnew, -⟩ | ⟨p, hp, hg⟩
      · exact .inl hnew
      · exact .inr ⟨p, Index.mem_of_find? hp, Index.key_of_find? hp, hg⟩
    · exact hr.member o ho
  | dropMembers g _ _ =>
    exact { hr with member := fun m hm => hr.member m ((Index.mem_filter _ _ _).1 hm).1 }
  | dropGroup g _ =>
    exact
    { user := hr.user
      group := fun k hk => hr.group k ((Index.mem_erase _ _ _).1 hk).1
      member := fun m hm => hr.member m ((Index.mem_filter _ _ _).1 hm).1
      expense := fun e he => hr.expense e ((Index.mem_filter _ _ _).1 he).1
      share := fun s hs => .inr (mem_shares_dropGroup.1 hs).1 }
  | putExpense e hid _ _ _ _ =>
    refine { hr with expense := fun o ho => ?_ }
    rcases (Index.mem_put _ _ _).1 ho with rfl | ⟨ho, -⟩
    · rcases hid with ⟨hnew, -⟩ | ⟨-, p, hp, hg, -⟩
      · exact .inl hnew
      · exact .inr ⟨p, Index.mem_of_find? hp, Index.key_of_find? hp, hg⟩
    · exact hr.expense o ho
  | dropShares id _ =>
    exact { hr with share := fun s hs => .inr ((Index.mem_filter _ _ _).1 hs).1 }
  | putShares e ss _ _ _ _ hnew hasc _ _ =>
    refine { hr with share := fun s hs => ?_ }
    rcases (mem_putShares (fun s hs => (hnew s hs).2) hasc s).1 hs with hs | hs
    · exact .inl (hnew s hs).1
    · exact .inr hs
  | eraseExpense id _ _ =>
    exact { hr with expense := fun e he => hr.expense e ((Index.mem_erase _ _ _).1 he).1 }

/-- Every id in the tables after a change was in them before or is new. -/
theorem Evolves.contains (h : Evolves new t t') {table : Table} {id : Int}
    (hc : t'.contains table id = true) : new id ∨ t.contains table id = true := by
  cases table with
  | users =>
    obtain ⟨u, hu, rfl⟩ := (Index.contains_iff _).1 hc
    exact h.user u hu
  | groups =>
    obtain ⟨g, hg, rfl⟩ := (Index.contains_iff _).1 hc
    exact h.group g hg
  | members =>
    obtain ⟨m, hm, rfl⟩ := (Index.contains_iff _).1 hc
    refine (h.member m hm).imp id ?_
    rintro ⟨o, ho, hid, -⟩
    exact (Index.contains_iff _).2 ⟨o, ho, hid⟩
  | expenses =>
    obtain ⟨e, he, rfl⟩ := (Index.contains_iff _).1 hc
    refine (h.expense e he).imp id ?_
    rintro ⟨o, ho, hid, -⟩
    exact (Index.contains_iff _).2 ⟨o, ho, hid⟩
  | shares =>
    obtain ⟨s, hs, rfl⟩ := (Index.contains_iff _).1 hc
    exact (h.share s hs).imp id Index.contains_of_mem

theorem Changes.contains (h : Changes new held t t') {table : Table} {id : Int}
    (hc : t'.contains table id = true) : new id ∨ t.contains table id = true := by
  induction h with
  | refl => exact .inr hc
  | tail _ hstep ih => exact (hstep.evolves.contains hc).elim .inl ih

end Tables

end SharedLedger
