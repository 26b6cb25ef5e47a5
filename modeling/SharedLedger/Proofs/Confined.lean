import SharedLedger.Proofs.Outsiders

/-!
# Changes within one group

A mutation is within a group (`Tables.Within`) if it puts in or takes out
nothing but the row of the group, its members, its expenses and their shares. It
then leaves everything else as it is (`Tables.SameOutside`), and whatever was
within the group before still is after it, so the same holds of a whole
journal. The plans of actions take the ids they write from their callers, from
rows they have looked at and from the supply; `Plan.ConfinedTo` says that all
these belong to the group of the thing the action is about.
-/

namespace SharedLedger

namespace Tables

variable {t t' t'' : Tables} {g : Int}

/-! ## Mutations within a group -/

/-- Accounts, other groups and all that belongs to other groups are the same. -/
structure SameOutside (t t' : Tables) (g : Int) : Prop where
  users : t'.users = t.users
  group : ∀ k, k ≠ g → t'.groups.find? k = t.groups.find? k
  member : ∀ m, m.groupId ≠ g → (m ∈ t'.members.toList ↔ m ∈ t.members.toList)
  expense : ∀ e, e.groupId ≠ g → (e ∈ t'.expenses.toList ↔ e ∈ t.expenses.toList)
  share : ∀ e ∈ t.expenses.toList, e.groupId ≠ g → ∀ s, s.expenseId = e.id →
    (s ∈ t'.shares.toList ↔ s ∈ t.shares.toList)

theorem SameOutside.refl (t : Tables) (g : Int) : t.SameOutside t g where
  users := rfl
  group _ _ := rfl
  member _ _ := .rfl
  expense _ _ := .rfl
  share _ _ _ _ _ := .rfl

theorem SameOutside.trans (h : t.SameOutside t' g) (h' : t'.SameOutside t'' g) :
    t.SameOutside t'' g where
  users := h'.users.trans h.users
  group k hk := (h'.group k hk).trans (h.group k hk)
  member m hm := (h'.member m hm).trans (h.member m hm)
  expense e he := (h'.expense e he).trans (h.expense e he)
  share e he hg s hs := (h'.share e ((h.expense e hg).2 he) hg s hs).trans (h.share e he hg s hs)

/-- An expense of the given id, if there is one, is of the group. -/
def ExpenseIn (t : Tables) (g id : Int) : Prop :=
  ∀ e ∈ t.expenses.toList, e.id = id → e.groupId = g

/-- A member of the given id, if there is one, is of the group. -/
def MemberIn (t : Tables) (g id : Int) : Prop :=
  ∀ m ∈ t.members.toList, m.id = id → m.groupId = g

/-- A share of the given id, if there is one, is of an expense of the group. -/
def ShareIn (t : Tables) (g id : Int) : Prop :=
  ∀ s ∈ t.shares.toList, s.id = id → t.ExpenseIn g s.expenseId

/-- **A mutation within a group**: all it takes away or puts something in the
place of is the group's. -/
def Within (t : Tables) (g : Int) : Mutation → Prop
  | .put (.user _) | .delete .users _ | .unlinkUser _ => False
  | .put (.group row) => row.id = g
  | .put (.member m) => m.groupId = g ∧ t.MemberIn g m.id
  | .put (.expense e) => e.groupId = g ∧ t.ExpenseIn g e.id
  | .put (.share s) => t.ExpenseIn g s.expenseId ∧ t.ShareIn g s.id
  | .delete .groups id => id = g
  | .delete .members id => t.MemberIn g id
  | .delete .expenses id => t.ExpenseIn g id
  | .delete .shares id => t.ShareIn g id

/-- It leaves everything outside as it is. -/
theorem Within.sameOutside {m : Mutation} (h : t.Within g m) : t.SameOutside (t.enact m) g := by
  have hr := SameOutside.refl t g
  match m, h with
  | .put (.group row), h =>
    exact { hr with group := fun k hk => (Index.find?_put ..).trans (if_neg (h ▸ hk.symm)) }
  | .delete .groups id, h =>
    exact { hr with group := fun k hk => (Index.find?_erase ..).trans (if_neg (h ▸ hk.symm)) }
  | .put (.member m), ⟨hg, hin⟩ =>
    refine { hr with member := fun o ho => (Index.mem_put ..).trans ⟨?_, fun hmem => ?_⟩ }
    · rintro (rfl | ⟨hmem, -⟩)
      · exact absurd hg ho
      · exact hmem
    · exact .inr ⟨hmem, fun hid => ho (hin o hmem hid)⟩
  | .delete .members id, hin =>
    refine { hr with member := fun o ho => (Index.mem_erase ..).trans ⟨And.left, fun hmem => ?_⟩ }
    exact ⟨hmem, fun hid => ho (hin o hmem hid)⟩
  | .put (.expense e), ⟨hg, hin⟩ =>
    refine { hr with expense := fun o ho => (Index.mem_put ..).trans ⟨?_, fun hmem => ?_⟩ }
    · rintro (rfl | ⟨hmem, -⟩)
      · exact absurd hg ho
      · exact hmem
    · exact .inr ⟨hmem, fun hid => ho (hin o hmem hid)⟩
  | .delete .expenses id, hin =>
    refine { hr with expense := fun o ho => (Index.mem_erase ..).trans ⟨And.left, fun hmem => ?_⟩ }
    exact ⟨hmem, fun hid => ho (hin o hmem hid)⟩
  -- a share of another group's expense is neither put in nor in the way
  | .put (.share s), ⟨hg, hin⟩ =>
    refine { hr with share := fun e he heg o ho => (Index.mem_put ..).trans ⟨?_, fun hmem => ?_⟩ }
    · rintro (rfl | ⟨hmem, -⟩)
      · exact absurd (hg e he ho.symm) heg
      · exact hmem
    · exact .inr ⟨hmem, fun hid => heg (hin o hmem hid e he ho.symm)⟩
  | .delete .shares id, hin =>
    refine { hr with
      share := fun e he heg o ho => (Index.mem_erase ..).trans ⟨And.left, fun hmem => ?_⟩ }
    exact ⟨hmem, fun hid => heg (hin o hmem hid e he ho.symm)⟩

/-- What is the group's stays the group's while nothing else changes. -/
theorem SameOutside.expenseIn (h : t.SameOutside t' g) {id : Int} (hin : t.ExpenseIn g id) :
    t'.ExpenseIn g id := by
  intro e he hid
  by_contra hne
  exact hne (hin e ((h.expense e hne).1 he) hid)

theorem SameOutside.memberIn (h : t.SameOutside t' g) {id : Int} (hin : t.MemberIn g id) :
    t'.MemberIn g id := by
  intro m hm hid
  by_contra hne
  exact hne (hin m ((h.member m hne).1 hm) hid)

theorem SameOutside.shareIn (h : t.SameOutside t' g) {id : Int} (hin : t.ShareIn g id) :
    t'.ShareIn g id := by
  intro s hs hid e he heid
  by_contra hne
  have he' : e ∈ t.expenses.toList := (h.expense e hne).1 he
  exact hne (hin s ((h.share e he' hne s heid.symm).1 hs) hid e he' heid)

theorem SameOutside.within (h : t.SameOutside t' g) {m : Mutation} (hm : t.Within g m) :
    t'.Within g m := by
  match m, hm with
  | .put (.group row), hm => exact hm
  | .delete .groups id, hm => exact hm
  | .put (.member m), hm => exact ⟨hm.1, h.memberIn hm.2⟩
  | .delete .members id, hm => exact h.memberIn hm
  | .put (.expense e), hm => exact ⟨hm.1, h.expenseIn hm.2⟩
  | .delete .expenses id, hm => exact h.expenseIn hm
  | .put (.share s), hm => exact ⟨h.expenseIn hm.1, h.shareIn hm.2⟩
  | .delete .shares id, hm => exact h.shareIn hm

/-- **A journal within a group leaves everything outside as it is.** -/
theorem sameOutside_of_replay {js : List Mutation} (hw : ∀ m ∈ js, t.Within g m)
    (hr : t.replay js = .ok t') : t.SameOutside t' g := by
  induction js generalizing t with
  | nil =>
    cases hr
    exact .refl _ g
  | cons m js ih =>
    obtain ⟨-, hr⟩ := replay_cons.1 hr
    have hm := (hw m List.mem_cons_self).sameOutside
    exact hm.trans (ih (fun k hk => hm.within (hw k (List.mem_cons_of_mem m hk))) hr)

/-! ## Parts of journals -/

variable {ids : Stream' Int} {id : Int}

theorem expenseIn_of_find {e : Expense} (he : t.expenses.find? id = some e) :
    t.ExpenseIn e.groupId id := by
  intro o ho hid
  rw [t.expenses.eq_of_key_eq ho (Index.mem_of_find? he) (hid.trans (Index.key_of_find? he).symm)]

theorem expenseIn_of_new (h : t.expenses.contains id = false) : t.ExpenseIn g id :=
  fun _ he hid => absurd hid (Index.ne_of_contains_eq_false h he)

theorem memberIn_of_find {m : Member} (hm : t.members.find? id = some m) :
    t.MemberIn m.groupId id := by
  intro o ho hid
  rw [t.members.eq_of_key_eq ho (Index.mem_of_find? hm) (hid.trans (Index.key_of_find? hm).symm)]

theorem memberIn_of_new (h : t.members.contains id = false) : t.MemberIn g id :=
  fun _ hm hid => absurd hid (Index.ne_of_contains_eq_false h hm)

theorem shareIn_of_new (h : t.shares.contains id = false) : t.ShareIn g id :=
  fun _ hs hid => absurd hid (Index.ne_of_contains_eq_false h hs)

theorem within_deletionOfShares (he : t.ExpenseIn g id) :
    ∀ m ∈ t.deletionOfShares id, t.Within g m := by
  intro m hm
  obtain ⟨s, hs, rfl⟩ := List.mem_map.1 hm
  obtain ⟨hs, hid⟩ := mem_sharesOf.1 hs
  intro o ho hoid
  rw [t.shares.eq_of_key_eq ho hs hoid, hid]
  exact he

theorem within_deletionOfExpense (he : t.ExpenseIn g id) :
    ∀ m ∈ t.deletionOfExpense id, t.Within g m := by
  intro m hm
  rcases List.mem_append.1 hm with hm | hm
  · exact within_deletionOfShares he m hm
  · cases List.mem_singleton.1 hm
    exact he

theorem within_deletionOfMembers (t : Tables) (g : Int) :
    ∀ m ∈ t.deletionOfMembers g, t.Within g m := by
  intro m hm
  obtain ⟨o, ho, rfl⟩ := List.mem_map.1 hm
  obtain ⟨ho, hg⟩ := mem_membersOf.1 ho
  exact hg ▸ memberIn_of_find (Index.find?_of_mem ho)

theorem within_deletionOfGroup (t : Tables) (g : Int) :
    ∀ m ∈ t.deletionOfGroup g, t.Within g m := by
  intro m hm
  rcases List.mem_append.1 hm with hm | hm
  · rcases List.mem_append.1 hm with hm | hm
    · obtain ⟨e, he, hm⟩ := List.mem_flatMap.1 hm
      obtain ⟨he, hg⟩ := mem_expensesOf.1 he
      exact within_deletionOfExpense (hg ▸ expenseIn_of_find (Index.find?_of_mem he)) m hm
    · exact within_deletionOfMembers t g m hm
  · cases List.mem_singleton.1 hm
    exact rfl

end Tables

open Tables

namespace Group

variable {t : Tables} {g : Int} {ids : Stream' Int}

theorem within_insertions {ms : List MemberDraft}
    (hnew : ∀ n, t.members.contains (ids.get n) = false) :
    ∀ m ∈ insertions g ids ms, t.Within g m := by
  induction ms generalizing ids with
  | nil => exact fun m hm => by cases hm
  | cons d ms ih =>
    intro m hm
    rcases List.mem_cons.1 hm with rfl | hm
    · exact ⟨rfl, memberIn_of_new (hnew 0)⟩
    · exact ih (fun n => hnew (n + 1)) m hm

end Group

namespace Expense

variable {t : Tables} {g : Int} {ids : Stream' Int} {e : SharedLedger.Expense}

theorem within_resharingJournal {ss : List ShareDraft} (he : t.ExpenseIn g e.id)
    (hnew : ∀ n, t.shares.contains (ids.get n) = false) :
    ∀ m ∈ resharingJournal t e ids ss, t.Within g m := by
  intro m hm
  rcases List.mem_append.1 hm with hm | hm
  · exact within_deletionOfShares he m hm
  · obtain ⟨s, hs, rfl⟩ := List.mem_map.1 hm
    obtain ⟨d, -, n, rfl⟩ := mem_shareRows hs
    exact ⟨he, shareIn_of_new (hnew n)⟩

theorem within_givenJournal {shares : Option (List ShareDraft)} (he : t.ExpenseIn g e.id)
    (hnew : ∀ n, t.shares.contains (ids.get n) = false) :
    ∀ m ∈ givenJournal t e ids shares, t.Within g m := by
  cases shares with
  | none => exact fun m hm => by cases hm
  | some ss => exact within_resharingJournal he hnew

end Expense

/-! ## Plans -/

open Plan

namespace Plan

variable {α : Type} {r : Resource} {p : Plan α}

/-- **A plan confined to the group of a thing**: begun on any tables, all that it
writes is within the group the thing belongs to. -/
structure ConfinedTo (r : Resource) (p : Plan α) : Prop where
  within : ∀ {t : Tables} {ids : Stream' Int} {o : Outcome α}, Fresh ids t →
    p.alone t ids = .ok o → ∀ m ∈ o.journal, ∃ g, t.owner? r = some g ∧ t.Within g m

theorem ReadOnly.confinedTo (h : p.ReadOnly) : p.ConfinedTo r := by
  refine ⟨fun {t ids o} _ ho m hm => ?_⟩
  rw [(h.alone_eq ho).1] at hm
  cases hm

/-- **What such a plan changes is in the group the thing belongs to.** -/
theorem ConfinedTo.tablesAfter (h : p.ConfinedTo r) {t : Tables} {ids : Stream' Int}
    (hf : Fresh ids t) :
    p.tablesAfter t ids = t ∨ ∃ g, t.owner? r = some g ∧ t.SameOutside (p.tablesAfter t ids) g := by
  unfold Plan.tablesAfter
  split
  · next o ho =>
    have hr := replay_journal ho
    cases hg : t.owner? r with
    | none =>
      -- without an owner there is nothing that could have been written
      have hnil : o.journal = [] := by
        refine List.eq_nil_iff_forall_not_mem.2 fun m hm => ?_
        obtain ⟨g, hg', -⟩ := h.within hf ho m hm
        cases hg.symm.trans hg'
      rw [hnil] at hr
      exact .inl (Except.ok.inj hr).symm
    | some g =>
      refine .inr ⟨g, rfl, sameOutside_of_replay (fun m hm => ?_) hr⟩
      obtain ⟨g', hg', hm⟩ := h.within hf ho m hm
      cases hg.symm.trans hg'
      exact hm
  · exact .inl rfl

end Plan

namespace Group

theorem owner_of_contains {t : Tables} {id : Int} (h : t.groups.contains id = true) :
    t.owner? (.group id) = some id := by
  obtain ⟨row, hrow⟩ := Index.contains_eq_true_iff.1 h
  simp [owner?, hrow, Index.key_of_find? hrow]

theorem confinedTo_nameChange (id : Int) (name : String) :
    (nameChange id name).ConfinedTo (.group id) := by
  refine ⟨fun {t ids o} _ ho m hm => ?_⟩
  obtain ⟨row, hrow, rfl⟩ := alone_nameChange.1 ho
  have hid : row.id = id := Index.key_of_find? hrow
  cases List.mem_singleton.1 hm
  exact ⟨id, owner_of_contains (Index.contains_eq_true_iff.2 ⟨row, hrow⟩), hid⟩

theorem confinedTo_deletion (id : Int) : (deletion id).ConfinedTo (.group id) := by
  refine ⟨fun {t ids o} _ ho m hm => ?_⟩
  obtain ⟨hin, t', -, rfl⟩ := alone_deletion.1 ho
  exact ⟨id, owner_of_contains hin, within_deletionOfGroup t id m hm⟩

theorem confinedTo_addition (id : Int) (d : MemberDraft) :
    (addition id d).ConfinedTo (.group id) := by
  refine ⟨fun {t ids o} hf ho m hm => ?_⟩
  obtain ⟨hin, -, rfl⟩ := alone_addition.1 ho
  cases List.mem_singleton.1 hm
  exact ⟨id, owner_of_contains hin, rfl, memberIn_of_new (hf.unused 0 .members)⟩

theorem confinedTo_replacement (id : Int) (ms : List MemberDraft) :
    (replacement id ms).ConfinedTo (.group id) := by
  refine ⟨fun {t ids o} hf ho m hm => ?_⟩
  obtain ⟨hin, -, t', -, rfl⟩ := alone_replacement.1 ho
  refine ⟨id, owner_of_contains hin, ?_⟩
  rcases List.mem_append.1 hm with hm | hm
  · exact within_deletionOfMembers t id m hm
  · exact within_insertions (fun n => hf.unused n .members) m hm

theorem confinedTo_rewriting (id : Int) {f : Member → Member} (hid : ∀ m, (f m).id = m.id)
    (hgroup : ∀ m, (f m).groupId = m.groupId) : (rewriting id f).ConfinedTo (.member id) := by
  refine ⟨fun {t ids o} _ ho m hm => ?_⟩
  obtain ⟨row, hrow, -, -, rfl⟩ := (alone_rewriting hid).1 ho
  cases List.mem_singleton.1 hm
  refine ⟨row.groupId, by simp [owner?, hrow], hgroup row, ?_⟩
  rw [hid, Index.key_of_find? hrow]
  exact memberIn_of_find hrow

theorem confinedTo_memberChange (id : Int) (u : MemberUpdate) :
    (memberChange id u).ConfinedTo (.member id) := by
  show (rewriting id fun m =>
    { m with name := u.name.getD m.name, userId := u.userId <|> m.userId }).ConfinedTo _
  exact confinedTo_rewriting id (fun _ => rfl) fun _ => rfl

theorem confinedTo_unlinking (id : Int) : (unlinking id).ConfinedTo (.member id) := by
  show (rewriting id Member.unlinked).ConfinedTo _
  exact confinedTo_rewriting id (fun _ => rfl) fun _ => rfl

end Group

namespace Expense

theorem owner_of_find {t : Tables} {id : Int} {e : SharedLedger.Expense}
    (h : t.expenses.find? id = some e) : t.owner? (.expense id) = some e.groupId := by
  simp [owner?, h]

theorem confinedTo_creation (g : Int) (draft : ExpenseDraft) :
    (creation g draft).ConfinedTo (.group g) := by
  refine ⟨fun {t ids o} hf ho m hm => ?_⟩
  obtain ⟨hin, -, -, t', -, rfl⟩ := alone_creation.1 ho
  have hnew : t.ExpenseIn g ids.head := expenseIn_of_new (hf.unused 0 .expenses)
  refine ⟨g, Group.owner_of_contains hin, ?_⟩
  rcases List.mem_cons.1 hm with rfl | hm
  · exact ⟨rfl, hnew⟩
  · exact within_givenJournal hnew (fun n => hf.unused (n + 1) .shares) m hm

theorem confinedTo_change (id : Int) (u : ExpenseUpdate) :
    (change id u).ConfinedTo (.expense id) := by
  refine ⟨fun {t ids o} hf ho m hm => ?_⟩
  obtain ⟨e, he, -, -, t', -, rfl⟩ := alone_change.1 ho
  have hin : t.ExpenseIn e.groupId (changed e u).id := by
    have hid : e.id = id := Index.key_of_find? he
    have hin : t.ExpenseIn e.groupId e.id := hid ▸ expenseIn_of_find he
    exact hin
  refine ⟨e.groupId, owner_of_find he, ?_⟩
  rcases List.mem_cons.1 hm with rfl | hm
  · exact ⟨rfl, hin⟩
  · exact within_givenJournal hin (fun n => hf.unused n .shares) m hm

/-- New shares of an expense are within its group. -/
theorem confinedTo_of_shares {p : Plan SharesReplaced} (id : Int) (ss : List ShareDraft)
    (h : ∀ {t ids o}, p.alone t ids = .ok o →
      ∃ e, t.expenses.find? id = some e ∧ o.journal = resharingJournal t e ids ss) :
    p.ConfinedTo (.expense id) := by
  refine ⟨fun {t ids o} hf ho m hm => ?_⟩
  obtain ⟨e, he, hj⟩ := h ho
  have hin : t.ExpenseIn e.groupId e.id := by
    rw [Index.key_of_find? he]
    exact expenseIn_of_find he
  rw [hj] at hm
  exact ⟨e.groupId, owner_of_find he,
    within_resharingJournal hin (fun n => hf.unused n .shares) m hm⟩

theorem confinedTo_sharing (id : Int) (ss : List ShareDraft) :
    (sharing id ss).ConfinedTo (.expense id) := by
  refine confinedTo_of_shares id ss fun ho => ?_
  obtain ⟨e, he, -, -, -, t', -, rfl⟩ := alone_sharing.1 ho
  exact ⟨e, he, rfl⟩

theorem confinedTo_resharing (id : Int) (ss : List ShareDraft) :
    (resharing id ss).ConfinedTo (.expense id) := by
  refine confinedTo_of_shares id ss fun ho => ?_
  obtain ⟨e, he, -, -, t', -, rfl⟩ := alone_resharing.1 ho
  exact ⟨e, he, rfl⟩

theorem confinedTo_unsharing (id : Int) : (unsharing id).ConfinedTo (.expense id) := by
  refine ⟨fun {t ids o} _ ho m hm => ?_⟩
  obtain ⟨hin, rfl⟩ := alone_unsharing.1 ho
  obtain ⟨e, he⟩ := Index.contains_eq_true_iff.1 hin
  exact ⟨e.groupId, owner_of_find he, within_deletionOfShares (expenseIn_of_find he) m hm⟩

theorem confinedTo_deletion (id : Int) : (deletion id).ConfinedTo (.expense id) := by
  refine ⟨fun {t ids o} _ ho m hm => ?_⟩
  obtain ⟨hin, rfl⟩ := alone_deletion.1 ho
  obtain ⟨e, he⟩ := Index.contains_eq_true_iff.1 hin
  exact ⟨e.groupId, owner_of_find he, within_deletionOfExpense (expenseIn_of_find he) m hm⟩

end Expense

/-! ## Operations -/

namespace Operation

variable {α β : Type} {r : Resource}

/-- An operation whose transactions are confined to the group of a thing. -/
inductive ConfinedTo (r : Resource) : Operation α → Prop
  | done (x : Except Failure α) : ConfinedTo r (.done x)
  | transaction {β : Type} {body : Plan β} {next : Except LedgerError β → Operation α}
      (hb : body.ConfinedTo r) (hn : ∀ x, (next x).ConfinedTo r) :
      ConfinedTo r (.transaction body next)

theorem confinedTo_single {body : Plan α} (h : body.ConfinedTo r) : (single body).ConfinedTo r :=
  .transaction h fun _ => .done _

theorem ConfinedTo.bind {op : Operation α} {f : α → Operation β} (h : op.ConfinedTo r)
    (hf : ∀ a, (f a).ConfinedTo r) : (op.bind f).ConfinedTo r := by
  induction h with
  | done x =>
    cases x with
    | ok a => exact hf a
    | error e => exact .done _
  | transaction hb _ ih => exact .transaction hb ih

theorem ConfinedTo.leads {op op' : Operation α} (h : op.ConfinedTo r) (hl : op.Leads op') :
    op'.ConfinedTo r := by
  induction hl with
  | start => exact h
  | next _ x ih =>
    cases ih with
    | transaction _ hn => exact hn x
  | overflow _ o _ => exact .done _

end Operation

open Operation

/-- **An action is confined to the group of the thing it is about.** -/
theorem Action.confinedTo_operation (a : Action) : a.operation.ConfinedTo a.resource := by
  have asks {α : Type} {body : Plan α} (h : body.ReadOnly) :
      (single body).ConfinedTo a.resource := confinedTo_single h.confinedTo
  cases a with
  | getGroup id => exact asks (readOnly_group id)
  | renameGroup id name => exact confinedTo_single (Group.confinedTo_nameChange id name)
  | deleteGroup id => exact confinedTo_single (Group.confinedTo_deletion id)
  | listMembers id => exact asks (readOnly_ask fun _ _ => ⟨_, rfl⟩)
  | addMember id m =>
    exact .bind (.done _) fun _ => confinedTo_single (Group.confinedTo_addition id m)
  | replaceMembers id ms =>
    exact .bind (.done _) fun _ => confinedTo_single (Group.confinedTo_replacement id ms)
  | updateMember id u =>
    exact .bind (.done _) fun _ => confinedTo_single (Group.confinedTo_memberChange id u)
  | unlinkMember id => exact confinedTo_single (Group.confinedTo_unlinking id)
  | listExpenses id => exact asks (readOnly_ask fun _ _ => ⟨_, rfl⟩)
  | createExpense id draft => exact confinedTo_single (Expense.confinedTo_creation id draft)
  | getExpense id => exact asks (readOnly_expense id)
  | updateExpense id u => exact confinedTo_single (Expense.confinedTo_change id u)
  | deleteExpense id => exact confinedTo_single (Expense.confinedTo_deletion id)
  | listShares id => exact asks (readOnly_ask fun _ _ => ⟨_, rfl⟩)
  | getShare id => exact asks (readOnly_share id)
  | createShares id ss => exact confinedTo_single (Expense.confinedTo_sharing id ss)
  | replaceShares id ss => exact confinedTo_single (Expense.confinedTo_resharing id ss)
  | clearShares id => exact confinedTo_single (Expense.confinedTo_unsharing id)
  | groupBalances id =>
    exact .bind (asks (Statement.readOnly_pairsAndNets id)) fun _ => .bind (.done _) fun _ => .done _

/-- The same of the action as far as the caller may do it. -/
theorem Action.confinedTo_on (a : Action) (caller : Int) : (a.on caller).ConfinedTo a.resource := by
  refine .bind (.done _) fun _ => .bind ?_ fun _ => a.confinedTo_operation
  exact .bind (confinedTo_single (Access.readOnly_owningGroup a.resource).confinedTo) fun g =>
    .transaction (Access.readOnly_isMember g caller).confinedTo fun _ => .done _

end SharedLedger
