import SharedLedger.Ledger.Group
import SharedLedger.Proofs.Lawful

/-!
# What groups and members do to the tables

All changes of a group or of its members lock the group, except that of its
creation: nobody else knows the group yet. A locked group is kept but for
accounts that are deleted meanwhile. A member who lost its account that way
cannot be given it back, because the store refuses links to accounts that do
not exist.
-/

namespace SharedLedger

open Tables Plan

variable {t T T' V : Tables} {ids : Stream' Int}

namespace Group

/-! ## Creation -/

/-- The row of a group's first member. -/
def firstMember (ids : Stream' Int) (userId : Int) (name : String) : Member :=
  ⟨ids.tail.head, ids.head, some userId, name⟩

/-- What is written when a group is created. -/
def creationJournal (ids : Stream' Int) (userId : Int) (groupName name : String) : List Mutation :=
  [.put (.group ⟨ids.head, groupName⟩), .put (.member (firstMember ids userId name))]

theorem alone_insertGroup {α : Type} {name : String} {f : SharedLedger.Group → Plan α}
    {o : Outcome α} :
    ((ask (.insertGroup name)).bind f).alone t ids = .ok o ↔
      ∃ t' o', t.replay [.put (.group ⟨ids.head, name⟩)] = .ok t' ∧
        (f ⟨ids.head, name⟩).alone t' ids.tail = .ok o' ∧
        o = o'.after [] [.put (.group ⟨ids.head, name⟩)] :=
  alone_change rfl

theorem alone_insertMember {α : Type} {g : Int} {m : MemberDraft} {f : Member → Plan α}
    {o : Outcome α} :
    ((ask (.insertMember g m)).bind f).alone t ids = .ok o ↔
      ∃ t' o', t.replay [.put (.member ⟨ids.head, g, m.userId, m.name⟩)] = .ok t' ∧
        (f ⟨ids.head, g, m.userId, m.name⟩).alone t' ids.tail = .ok o' ∧
        o = o'.after [] [.put (.member ⟨ids.head, g, m.userId, m.name⟩)] :=
  alone_change rfl

theorem alone_creation {userId : Int} {draft : GroupDraft} {o : Outcome GroupCreated} :
    (creation userId draft).alone t ids = .ok o ↔
      ∃ u t', t.users.find? userId = some u ∧
        t.replay (creationJournal ids u.id draft.name (draft.memberName.getD u.name)) = .ok t' ∧
        o = ⟨⟨⟨ids.head, draft.name⟩, firstMember ids u.id (draft.memberName.getD u.name)⟩, [],
          creationJournal ids u.id draft.name (draft.memberName.getD u.name), t',
          ids.tail.tail⟩ := by
  refine alone_user.trans ?_
  constructor
  · rintro ⟨u, hu, ho⟩
    obtain ⟨t₁, o₁, h₁, ho₁, rfl⟩ := alone_insertGroup.1 ho
    obtain ⟨t₂, o₂, h₂, ho₂, rfl⟩ := alone_insertMember.1 ho₁
    rw [alone_done.1 ho₂]
    exact ⟨u, t₂, hu, replay_append.2 ⟨t₁, h₁, h₂⟩, rfl⟩
  · rintro ⟨u, t', hu, hr, rfl⟩
    obtain ⟨t₁, h₁, h₂⟩ := (@replay_append t t' [_] [_]).1 hr
    exact ⟨u, hu, alone_insertGroup.2 ⟨t₁, _, h₁,
      alone_insertMember.2 ⟨t', _, h₂, alone_done.2 rfl, rfl⟩, rfl⟩⟩

/-- Creating a group never stands in anybody's way. -/
theorem changes_of_creation {held : RowKey → Prop} {userId : Int} {groupName name : String}
    (hf : Fresh ids t) (hr : t.replay (creationJournal ids userId groupName name) = .ok t') :
    Changes (Supplied ids) held t t' := by
  obtain ⟨-, hr⟩ := replay_cons.1 hr
  obtain ⟨hc, rfl⟩ := replay_singleton.1 hr
  have hnew : Supplied ids ids.tail.head := (supplied_head ids.tail).of_tail
  refine .tail (.single (.putGroup ⟨ids.head, groupName⟩ (.inl (supplied_head ids)))) ?_
  exact .putMember _ (.inl ⟨hnew, hf.unused 1 .members⟩) (.inl (supplied_head ids)) hc

/-- Where the name of the first member is not given it is that of the account,
which may have another name by the time of the commit. -/
theorem lawful_creation (userId : Int) (draft : GroupDraft) :
    (creation userId draft).Lawful (draft.memberName ≠ none) := by
  refine ⟨fun {V T T' ids o} _ _ _ hf ho hr => ?_⟩
  obtain ⟨u, t', hu, -, rfl⟩ := alone_creation.1 ho
  refine ⟨changes_of_creation hf hr, fun hname => ?_⟩
  obtain ⟨-, hr'⟩ := replay_cons.1 hr
  obtain ⟨hc, -⟩ := replay_singleton.1 hr'
  have hin : T.users.contains u.id = true := ((check_put_member.1 hc).2 u.id rfl).1
  obtain ⟨u', hu'⟩ := Index.contains_eq_true_iff.1 hin
  have hid : u'.id = u.id := Index.key_of_find? hu'
  rw [Index.key_of_find? hu] at hu'
  refine tablesAfter_of_ok (alone_creation.2 ⟨u', T', hu', ?_, rfl⟩)
  obtain ⟨name, hn⟩ := Option.ne_none_iff_exists'.1 hname
  rw [hid]
  simpa [hn] using hr

/-! ## The group itself -/

theorem alone_nameChange {id : Int} {name : String} {o : Outcome SharedLedger.Group} :
    (nameChange id name).alone t ids = .ok o ↔
      ∃ g, t.groups.find? id = some g ∧
        o = ⟨{ g with name }, [⟨.groups, id⟩], [.put (.group { g with name })],
          t.enact (.put (.group { g with name })), ids⟩ := by
  refine alone_hold.trans ?_
  constructor
  · rintro ⟨-, o', ho', rfl⟩
    obtain ⟨g, hg, ho'⟩ := alone_group.1 ho'
    obtain ⟨-, t', ht, rfl⟩ := (alone_ask_required rfl).1 ho'
    obtain ⟨-, rfl⟩ := replay_singleton.1 ht
    exact ⟨g, hg, rfl⟩
  · rintro ⟨g, hg, rfl⟩
    have hin : t.groups.contains id = true := Index.contains_eq_true_iff.2 ⟨g, hg⟩
    have hid : g.id = id := Index.key_of_find? hg
    refine ⟨hin, ⟨{ g with name }, [], [.put (.group { g with name })],
      t.enact (.put (.group { g with name })), ids⟩, ?_, rfl⟩
    refine alone_group.2 ⟨g, hg, (alone_ask_required rfl).2 ?_⟩
    exact ⟨by rw [← hid] at hin; exact hin, _, replay_singleton.2 ⟨rfl, rfl⟩, rfl⟩

theorem lawful_nameChange (id : Int) (name : String) : (nameChange id name).Lawful True := by
  refine lawful_of_repeats ?_ ?_
  · intro T ids o _ _ ho
    obtain ⟨g, hg, rfl⟩ := alone_nameChange.1 ho
    have hid : g.id = id := Index.key_of_find? hg
    refine .single (.putGroup _ (.inr ⟨?_, ?_⟩))
    · rw [hid]
      exact List.mem_singleton_self _
    · rw [hid]
      exact Index.contains_eq_true_iff.2 ⟨g, hg⟩
  · intro V T T' ids o hb _ _ _ ho hr
    obtain ⟨g, hg, rfl⟩ := alone_nameChange.1 ho
    have hkept : GroupKept V T id := hb.kept ⟨.groups, id⟩ (List.mem_singleton_self _)
    exact repeats_of_journal (alone_nameChange.2 ⟨g, hkept.row.trans hg, rfl⟩) rfl rfl hr

theorem alone_deletion {id : Int} {o : Outcome Unit} :
    (deletion id).alone t ids = .ok o ↔
      t.groups.contains id = true ∧ ∃ t', t.replay (t.deletionOfGroup id) = .ok t' ∧
        o = ⟨(), [⟨.groups, id⟩], t.deletionOfGroup id, t', ids⟩ := by
  refine alone_hold.trans ?_
  constructor
  · rintro ⟨hin, o', ho', rfl⟩
    obtain ⟨-, t', ht, rfl⟩ := (alone_ask_required rfl).1 ho'
    exact ⟨hin, t', ht, rfl⟩
  · rintro ⟨hin, t', ht, rfl⟩
    have hrow : t.contains .groups id = true := hin
    exact ⟨hin, _, (alone_ask_required rfl).2 ⟨hrow, t', ht, rfl⟩, rfl⟩

section Planned

variable {locked : List RowKey} {g : Int}

/-- An expense that is there by now was planned to go if and only if it is of
the locked group. -/
theorem planned_expense_eq (hb : Base locked V T) (hg : (⟨.groups, g⟩ : RowKey) ∈ locked)
    {e : SharedLedger.Expense} (he : e ∈ T.expenses.toList) :
    ((V.expensesOf g).any fun r => r.id == e.id) = (e.groupId == g) := by
  have hkept : GroupKept V T g := hb.kept _ hg
  rw [Bool.eq_iff_iff, List.any_eq_true, beq_iff_eq]
  constructor
  · rintro ⟨r, hr, hid⟩
    obtain ⟨hr, hrg⟩ := mem_expensesOf.1 hr
    exact (hb.descends.expense r hr e he (beq_iff_eq.1 hid).symm).trans hrg
  · intro heg
    exact ⟨e, mem_expensesOf.2 ⟨hkept.expense e he heg, heg⟩, beq_self_eq_true _⟩

/-- And a share if and only if its expense is. -/
theorem planned_share_eq (hb : Base locked V T) (hT : T.Consistent)
    (hg : (⟨.groups, g⟩ : RowKey) ∈ locked) {s : Share} (hs : s ∈ T.shares.toList) :
    ((V.expensesOf g).any fun e => (V.sharesOf e.id).any fun r => r.id == s.id) =
      (T.expensesOf g).any fun e => e.id == s.expenseId := by
  have hkept : GroupKept V T g := hb.kept _ hg
  rw [Bool.eq_iff_iff, List.any_eq_true, List.any_eq_true]
  constructor
  · rintro ⟨e, he, hany⟩
    obtain ⟨he, heg⟩ := mem_expensesOf.1 he
    obtain ⟨r, hr, hid⟩ := List.any_eq_true.1 hany
    obtain ⟨hr, hre⟩ := mem_sharesOf.1 hr
    have hsr : s = r := hb.descends.share r hr s hs (beq_iff_eq.1 hid).symm
    obtain ⟨e', he', hid', -⟩ := hT.expense_of_share hs
    have hse : s.expenseId = e.id := by rw [hsr, hre]
    have heg' : e'.groupId = e.groupId := hb.descends.expense e he e' he' (hid'.trans hse)
    exact ⟨e', mem_expensesOf.2 ⟨he', heg'.trans heg⟩, beq_iff_eq.2 hid'⟩
  · rintro ⟨e, he, hid⟩
    obtain ⟨he, heg⟩ := mem_expensesOf.1 he
    have hse : s.expenseId = e.id := (beq_iff_eq.1 hid).symm
    refine ⟨e, mem_expensesOf.2 ⟨hkept.expense e he heg, heg⟩, List.any_eq_true.2 ⟨s, ?_, ?_⟩⟩
    · exact mem_sharesOf.2 ⟨hkept.share e he heg s hs hse, hse⟩
    · exact beq_self_eq_true _

theorem planned_member_eq (hb : Base locked V T) (hg : (⟨.groups, g⟩ : RowKey) ∈ locked)
    {m : Member} (hm : m ∈ T.members.toList) :
    ((V.membersOf g).any fun r => r.id == m.id) = (m.groupId == g) := by
  have hkept : GroupKept V T g := hb.kept _ hg
  rw [Bool.eq_iff_iff, List.any_eq_true, beq_iff_eq]
  constructor
  · rintro ⟨r, hr, hid⟩
    obtain ⟨hr, hrg⟩ := mem_membersOf.1 hr
    exact (hb.descends.member r hr m hm (beq_iff_eq.1 hid).symm).trans hrg
  · intro hmg
    obtain ⟨r, hr, hid⟩ := hasMember_iff_mem.1 (hkept.member_of m hm hmg)
    exact ⟨r, hr, beq_iff_eq.2 hid⟩

/-- Once the planned expenses are gone, no member that was planned to go has
paid for anything. -/
theorem paidBy_ne_of_planned (hb : Base locked V T) (hT : T.Consistent)
    (hg : (⟨.groups, g⟩ : RowKey) ∈ locked) {m : Member} (hm : m ∈ V.membersOf g)
    {e : SharedLedger.Expense}
    (he : e ∈ (T.dropExpenses (V.expensesOf g) fun e => V.sharesOf e.id).expenses.toList) :
    e.paidBy ≠ m.id := by
  intro hpay
  obtain ⟨hm, hmg⟩ := mem_membersOf.1 hm
  obtain ⟨he, hout⟩ := (Index.mem_filter _ _ _).1 he
  rw [planned_expense_eq hb hg he] at hout
  -- an expense is of the group of the member who paid, and those of this group are gone
  obtain ⟨o, ho, hog⟩ := hT.expense_payer e he
  have hid : o.id = m.id := (Index.key_of_find? ho).trans hpay
  have heg : e.groupId = g :=
    hog.symm.trans ((hb.descends.member m hm o (Index.mem_of_find? ho) hid).trans hmg)
  simp [heg] at hout

/-- **The deletion of a locked group**, planned on older tables, deletes what is
in the group by now. -/
theorem replay_deletionOfGroup (hb : Base locked V T) (hT : T.Consistent)
    (hg : (⟨.groups, g⟩ : RowKey) ∈ locked) :
    T.replay (V.deletionOfGroup g) = .ok (dropGroup T g) := by
  have hpaid : ∀ m ∈ V.membersOf g,
      ∀ e ∈ (T.dropExpenses (V.expensesOf g) fun e => V.sharesOf e.id).expenses.toList,
        e.paidBy ≠ m.id := fun _ hm _ he => paidBy_ne_of_planned hb hT hg hm he
  refine replay_append.2 ⟨_, replay_append.2 ⟨_, replay_delete_expenses _ _,
    replay_delete_members_iff.2 ⟨hpaid, rfl⟩⟩, replay_singleton.2 ⟨rfl, ?_⟩⟩
  simp only [dropGroup, dropExpenses, dropMembers, enact, Tables.mk.injEq, true_and]
  refine ⟨Index.ext_mem fun m => ?_, Index.ext_mem fun e => ?_, Index.ext_mem fun s => ?_⟩
  · simp only [Index.mem_filter]
    exact and_congr_right fun hm => by rw [planned_member_eq hb hg hm]; rfl
  · simp only [Index.mem_filter]
    exact and_congr_right fun he => by rw [planned_expense_eq hb hg he]; rfl
  · simp only [Index.mem_filter]
    exact and_congr_right fun hs => by rw [planned_share_eq hb hT hg hs]

end Planned

theorem lawful_deletion (id : Int) : (deletion id).Lawful True := by
  refine lawful_of_repeats ?_ ?_
  · intro T ids o hT _ ho
    obtain ⟨hin, t', ht, rfl⟩ := alone_deletion.1 ho
    have hb : Base [⟨.groups, id⟩] T T := .refl_singleton hT hin
    rw [replay_deletionOfGroup hb hT (List.mem_singleton_self _)] at ht
    cases ht
    exact .single (.dropGroup id (List.mem_singleton_self _))
  · intro V T T' ids o hb hT _ _ ho hr
    obtain ⟨-, t', -, rfl⟩ := alone_deletion.1 ho
    have hin : T.groups.contains id = true := hb.contains_group (List.mem_singleton_self _)
    rw [replay_deletionOfGroup hb hT (List.mem_singleton_self _)] at hr
    cases hr
    have hb' : Base [⟨.groups, id⟩] T T := .refl_singleton hT hin
    have hT' := replay_deletionOfGroup hb' hT (List.mem_singleton_self _)
    exact .inl ⟨_, alone_deletion.2 ⟨hin, _, hT', rfl⟩, rfl, rfl⟩

/-! ## Its members -/

/-- The rows of members that are inserted one after the other. -/
def memberRows (groupId : Int) : Stream' Int → List MemberDraft → List Member
  | _, [] => []
  | ids, m :: ms => ⟨ids.head, groupId, m.userId, m.name⟩ :: memberRows groupId ids.tail ms

/-- What is written when members are inserted. -/
def insertions (groupId : Int) (ids : Stream' Int) (ms : List MemberDraft) : List Mutation :=
  (memberRows groupId ids ms).map fun m => .put (.member m)

theorem alone_insertMembers {g : Int} {ms : List MemberDraft} {o : Outcome (List Member)} :
    (insertMembers g ms).alone t ids = .ok o ↔
      ∃ t', t.replay (insertions g ids ms) = .ok t' ∧
        o = ⟨memberRows g ids ms, [], insertions g ids ms, t', ids.drop ms.length⟩ :=
  alone_rows (insertMembers g) (fun id m => ⟨id, g, m.userId, m.name⟩) (memberRows g)
    (fun m => .put (.member m)) rfl (fun _ => rfl) (fun _ _ _ _ _ => alone_insertMember)
    fun _ _ _ => rfl

theorem alone_insertMembers_bind {α : Type} {g : Int} {ms : List MemberDraft}
    {f : List Member → Plan α} {o : Outcome α} :
    ((insertMembers g ms).bind f).alone t ids = .ok o ↔
      ∃ t' o', t.replay (insertions g ids ms) = .ok t' ∧
        (f (memberRows g ids ms)).alone t' (ids.drop ms.length) = .ok o' ∧
        o = o'.after [] (insertions g ids ms) :=
  alone_writes_bind fun _ => alone_insertMembers

/-- Members that are put into a locked group. -/
theorem changes_of_insertions {held : RowKey → Prop} {g : Int} {ms : List MemberDraft}
    (hheld : held ⟨.groups, g⟩) (hf : Fresh ids t) (hr : t.replay (insertions g ids ms) = .ok t') :
    Changes (Supplied ids) held t t' := by
  -- each member goes in under the id after that of the one before
  induction ms generalizing t ids with
  | nil =>
    cases hr
    exact .refl
  | cons m ms ih =>
    obtain ⟨hc, hr⟩ := replay_cons.1 hr
    have hfirst : Change (· = ids.head) held t
        (t.enact (.put (.member ⟨ids.head, g, m.userId, m.name⟩))) :=
      .putMember _ (.inl ⟨rfl, hf.head_unused .members⟩) (.inr hheld) hc
    refine .head (hfirst.mono (fun i (hi : i = ids.head) => hi ▸ supplied_head ids) fun _ hk => hk) ?_
    exact (ih (hf.tail_of_change hfirst) hr).mono (fun _ => .of_tail) fun _ hk => hk

theorem alone_addition {id : Int} {m : MemberDraft} {o : Outcome Member} :
    (addition id m).alone t ids = .ok o ↔
      t.groups.contains id = true ∧
        t.check (.put (.member ⟨ids.head, id, m.userId, m.name⟩)) = .ok () ∧
        o = ⟨⟨ids.head, id, m.userId, m.name⟩, [⟨.groups, id⟩],
          [.put (.member ⟨ids.head, id, m.userId, m.name⟩)],
          t.enact (.put (.member ⟨ids.head, id, m.userId, m.name⟩)), ids.tail⟩ := by
  refine alone_hold.trans ?_
  constructor
  · rintro ⟨hin, o', ho', rfl⟩
    obtain ⟨hc, rfl⟩ := (alone_ask_single rfl).1 ho'
    exact ⟨hin, hc, rfl⟩
  · rintro ⟨hin, hc, rfl⟩
    exact ⟨hin, _, (alone_ask_single rfl).2 ⟨hc, rfl⟩, rfl⟩

theorem lawful_addition (id : Int) (m : MemberDraft) : (addition id m).Lawful True := by
  refine lawful_of_repeats ?_ ?_
  · intro T ids o _ hf ho
    obtain ⟨-, hc, rfl⟩ := alone_addition.1 ho
    exact .single (.putMember _ (.inl ⟨supplied_head ids, hf.head_unused .members⟩)
      (.inr (List.mem_singleton_self _)) hc)
  · intro V T T' ids o hb _ _ _ ho hr
    obtain ⟨-, -, rfl⟩ := alone_addition.1 ho
    have hin : T.groups.contains id = true := hb.contains_group (List.mem_singleton_self _)
    obtain ⟨hc, -⟩ := replay_singleton.1 hr
    exact repeats_of_journal (alone_addition.2 ⟨hin, hc, rfl⟩) rfl rfl hr

/-- Nobody in the group has paid for anything. -/
theorem expensePaidIn?_eq_none {g : Int} :
    t.expensePaidIn? g = none ↔ ∀ m ∈ t.membersOf g, ∀ e ∈ t.expenses.toList, e.paidBy ≠ m.id := by
  simp only [expensePaidIn?, List.find?_eq_none, List.any_eq_true, beq_iff_eq, not_exists, not_and]
  exact ⟨fun h m hm e he hp => h e he m hm hp.symm, fun h e he m hm hp => h m hm e he hp.symm⟩

theorem alone_deleteMembers {α : Type} {g : Int} {f : Nat → Plan α} {o : Outcome α} :
    ((ask (.deleteMembers g)).bind f).alone t ids = .ok o ↔
      t.expensePaidIn? g = none ∧ ∃ t' o', t.replay (t.deletionOfMembers g) = .ok t' ∧
        (f (t.membersOf g).length).alone t' ids = .ok o' ∧
        o = o'.after [] (t.deletionOfMembers g) := by
  refine alone_call.trans ?_
  simp only [Call.effect]
  cases hp : t.expensePaidIn? g with
  | some e =>
    constructor
    · rintro ⟨ms, r, t', o', he, -⟩
      cases he
    · rintro ⟨hn, -⟩
      cases hn
  | none =>
    constructor
    · rintro ⟨ms, r, t', o', he, h⟩
      cases he
      exact ⟨rfl, t', o', h⟩
    · rintro ⟨-, t', o', h⟩
      exact ⟨_, _, t', o', rfl, h⟩

theorem alone_replacement {id : Int} {ms : List MemberDraft} {o : Outcome MembersReplaced} :
    (replacement id ms).alone t ids = .ok o ↔
      t.groups.contains id = true ∧ t.expensePaidIn? id = none ∧
        ∃ t', t.replay (t.deletionOfMembers id ++ insertions id ids ms) = .ok t' ∧
          o = ⟨⟨(t.membersOf id).length, memberRows id ids ms⟩, [⟨.groups, id⟩],
            t.deletionOfMembers id ++ insertions id ids ms, t', ids.drop ms.length⟩ := by
  refine alone_hold.trans ?_
  constructor
  · rintro ⟨hin, o', ho', rfl⟩
    obtain ⟨hp, t₁, o₁, h₁, ho₁, rfl⟩ := alone_deleteMembers.1 ho'
    obtain ⟨t', o₂, h', ho₂, rfl⟩ := alone_insertMembers_bind.1 ho₁
    rw [alone_done.1 ho₂]
    refine ⟨hin, hp, t', replay_append.2 ⟨t₁, h₁, h'⟩, ?_⟩
    simp [Outcome.after]
  · rintro ⟨hin, hp, t', ht', rfl⟩
    obtain ⟨t₁, h₁, h'⟩ := replay_append.1 ht'
    refine ⟨hin, _, alone_deleteMembers.2 ⟨hp, t₁, _, h₁,
      alone_insertMembers_bind.2 ⟨t', _, h', alone_done.2 rfl, rfl⟩, rfl⟩, ?_⟩
    simp [Outcome.after]

/-- Taking out the members of a group by their ids. -/
theorem dropMembers_membersOf {g : Int} :
    (t.dropMembers fun m => (t.membersOf g).any fun r => r.id == m.id) =
      t.dropMembers fun m => m.groupId == g := by
  simp only [dropMembers]
  congr 1
  refine Index.ext_mem fun m => ?_
  simp only [Index.mem_filter]
  refine and_congr_right fun hm => ?_
  have hany : ((t.membersOf g).any fun r => r.id == m.id) = (m.groupId == g) :=
    t.members.any_key_filter (fun m => m.groupId == g) hm
  rw [hany]

/-- The same members are to go from a locked group, whatever became of their
accounts. -/
theorem deletionOfMembers_eq {locked : List RowKey} {g : Int} (hb : Base locked V T)
    (hg : (⟨.groups, g⟩ : RowKey) ∈ locked) : T.deletionOfMembers g = V.deletionOfMembers g := by
  have ascending : ∀ t : Tables, ((t.membersOf g).map (·.id)).Pairwise
      fun a b => KeyOrder.before a b = true := fun t =>
    List.pairwise_map.2 (t.members.ascending.filter _)
  have hids : (T.membersOf g).map (·.id) = (V.membersOf g).map (·.id) := by
    refine @Index.eq_of_ascending Int Int _ (fun i => i) _ _ (ascending T) (ascending V) fun i => ?_
    have hiff := hb.hasMember_iff (m := i) hg
    rw [hasMember_iff_mem, hasMember_iff_mem] at hiff
    simpa using hiff
  have hmap : ∀ t : Tables, t.deletionOfMembers g =
      ((t.membersOf g).map (·.id)).map fun i => .delete .members i := fun t => by
    simp [deletionOfMembers]
  rw [hmap, hmap, hids]

theorem lawful_replacement (id : Int) (ms : List MemberDraft) :
    (replacement id ms).Lawful True := by
  refine lawful_of_repeats ?_ ?_
  · intro T ids o hT hf ho
    obtain ⟨-, hp, t', ht', rfl⟩ := alone_replacement.1 ho
    obtain ⟨t₁, h₁, h'⟩ := replay_append.1 ht'
    have hheld : (⟨.groups, id⟩ : RowKey) ∈ [(⟨.groups, id⟩ : RowKey)] := List.mem_singleton_self _
    -- every expense of the group was paid by one of its members, and none of them paid
    have hno : ∀ e ∈ T.expenses.toList, e.groupId ≠ id := by
      rintro e he rfl
      obtain ⟨m, hm, hid⟩ := hasMember_iff_mem.1 (hT.expense_payer e he)
      exact expensePaidIn?_eq_none.1 hp m hm e he hid.symm
    obtain ⟨-, rfl⟩ := replay_delete_members_iff.1 h₁
    rw [dropMembers_membersOf] at h'
    have hfirst : Change (fun _ => False) (· ∈ [(⟨.groups, id⟩ : RowKey)]) T
        (T.dropMembers fun m => m.groupId == id) := .dropMembers id hheld hno
    refine .head (hfirst.mono (fun _ => False.elim) fun _ hk => hk) ?_
    exact changes_of_insertions hheld (hf.of_change hfirst) h'
  · intro V T T' ids o hb _ _ _ ho hr
    obtain ⟨-, -, t', -, rfl⟩ := alone_replacement.1 ho
    have hheld : (⟨.groups, id⟩ : RowKey) ∈ [(⟨.groups, id⟩ : RowKey)] := List.mem_singleton_self _
    have hin : T.groups.contains id = true := hb.contains_group hheld
    have hdel := deletionOfMembers_eq hb hheld
    obtain ⟨t₁, h₁, -⟩ := replay_append.1 hr
    have hp : T.expensePaidIn? id = none := by
      rw [← hdel] at h₁
      exact expensePaidIn?_eq_none.2 (replay_delete_members_iff.1 h₁).1
    have hr' : T.replay (T.deletionOfMembers id ++ insertions id ids ms) = .ok T' := by
      rw [hdel]
      exact hr
    exact .inl ⟨_, alone_replacement.2 ⟨hin, hp, T', hr', rfl⟩, rfl, rfl⟩

/-! ## A single member -/

theorem alone_lockedMember {α : Type} {id : Int} {f : Member → Plan α} {o : Outcome α} :
    ((lockedMember id).bind f).alone t ids = .ok o ↔
      ∃ m, t.members.find? id = some m ∧ t.groups.contains m.groupId = true ∧
        ∃ o', (f m).alone t ids = .ok o' ∧ o = o'.after [⟨.groups, m.groupId⟩] [] := by
  have hassoc : (lockedMember id).bind f = (Plan.member id).bind fun m =>
      (Plan.hold .groups m.groupId).bind fun _ => (Plan.member id).bind f := by
    simp only [lockedMember, bind_eq, bind_assoc]
  rw [hassoc, alone_member]
  simp only [alone_hold, alone_member]
  constructor
  · rintro ⟨m, hm, hin, o', ⟨m', hm', ho'⟩, rfl⟩
    rw [hm] at hm'
    cases hm'
    exact ⟨m, hm, hin, o', ho', rfl⟩
  · rintro ⟨m, hm, hin, o', ho', rfl⟩
    exact ⟨m, hm, hin, o', ⟨m, hm, ho'⟩, rfl⟩

/-- Gives the member of an id another row, once its group is locked. -/
def rewriting (id : Int) (g : Member → Member) : Plan Member :=
  (lockedMember id).bind fun m => ask (.updateMember (g m))

theorem alone_rewriting {id : Int} {g : Member → Member} (hid : ∀ m, (g m).id = m.id)
    {o : Outcome Member} :
    (rewriting id g).alone t ids = .ok o ↔
      ∃ m, t.members.find? id = some m ∧ t.groups.contains m.groupId = true ∧
        t.check (.put (.member (g m))) = .ok () ∧
        o = ⟨g m, [⟨.groups, m.groupId⟩], [.put (.member (g m))],
          t.enact (.put (.member (g m))), ids⟩ := by
  refine alone_lockedMember.trans ?_
  constructor
  · rintro ⟨m, hm, hin, o', ho', rfl⟩
    obtain ⟨-, t', ht, rfl⟩ := (alone_ask_required rfl).1 ho'
    obtain ⟨hc, rfl⟩ := replay_singleton.1 ht
    exact ⟨m, hm, hin, hc, rfl⟩
  · rintro ⟨m, hm, hin, hc, rfl⟩
    have hrow : t.contains .members (g m).id = true := by
      rw [hid, Index.key_of_find? hm]
      exact Index.contains_eq_true_iff.2 ⟨m, hm⟩
    refine ⟨m, hm, hin, ⟨g m, [], [.put (.member (g m))], t.enact (.put (.member (g m))), ids⟩,
      ?_, rfl⟩
    exact (alone_ask_required rfl).2 ⟨hrow, _, replay_singleton.2 ⟨hc, rfl⟩, rfl⟩

/-- **A member may be given another row late**, if the row keeps its group and
either forgets the account the member had or insists on it. -/
theorem lawful_rewriting (id : Int) {g : Member → Member} (hid : ∀ m, (g m).id = m.id)
    (hgroup : ∀ m, (g m).groupId = m.groupId)
    (huser : ∀ m, g m.unlinked = g m ∨ (g m).userId = m.userId) :
    (rewriting id g).Lawful True := by
  refine lawful_of_repeats ?_ ?_
  · intro T ids o _ _ ho
    obtain ⟨m, hm, -, hc, rfl⟩ := (alone_rewriting hid).1 ho
    refine .single (.putMember _ (.inr ⟨m, ?_, (hgroup m).symm⟩) (.inr ?_) hc)
    · rw [hid, Index.key_of_find? hm]
      exact hm
    · rw [hgroup]
      exact List.mem_singleton_self _
  · intro V T T' ids o hb _ _ _ ho hr
    obtain ⟨m, hm, -, -, rfl⟩ := (alone_rewriting hid).1 ho
    have hheld : (⟨.groups, m.groupId⟩ : RowKey) ∈ [(⟨.groups, m.groupId⟩ : RowKey)] :=
      List.mem_singleton_self _
    have hkept : GroupKept V T m.groupId := hb.kept _ hheld
    have hin := hb.contains_group hheld
    obtain ⟨hc, rfl⟩ := replay_singleton.1 hr
    have hmid : m.id = id := Index.key_of_find? hm
    -- under the lock of its group a member may still have lost an account that was deleted
    rcases hkept.member m (Index.mem_of_find? hm) rfl with hm' | ⟨hm', u, hu, hgone⟩
    · have hfind : T.members.find? id = some m := hmid ▸ Index.find?_of_mem hm'
      exact .inl ⟨_, (alone_rewriting hid).2 ⟨m, hfind, hin, hc, rfl⟩, rfl, rfl⟩
    · have hfind : T.members.find? id = some m.unlinked := by
        have hfind' : T.members.find? m.unlinked.id = some m.unlinked := Index.find?_of_mem hm'
        rw [← hmid]
        exact hfind'
      rcases huser m with hforget | hinsist
      · have hc' : T.check (.put (.member (g m.unlinked))) = .ok () := by
          rw [hforget]
          exact hc
        refine .inl ⟨_, (alone_rewriting hid).2 ⟨m.unlinked, hfind, hin, hc', rfl⟩, rfl, ?_⟩
        rw [hforget]
      · -- The account is gone, so the store would have refused the row.
        have hlink := (check_put_member.1 hc).2 u (hinsist.trans hu)
        rw [hgone] at hlink
        cases hlink.1

theorem lawful_memberChange (id : Int) (u : MemberUpdate) : (memberChange id u).Lawful True := by
  let g : Member → Member := fun m =>
    { m with name := u.name.getD m.name, userId := u.userId <|> m.userId }
  show (rewriting id g).Lawful True
  refine lawful_rewriting id (fun _ => rfl) (fun _ => rfl) fun m => ?_
  cases hu : u.userId with
  | none =>
    right
    simp [g, hu]
  | some v =>
    left
    simp [g, hu, Member.unlinked]

theorem lawful_unlinking (id : Int) : (unlinking id).Lawful True := by
  show (rewriting id Member.unlinked).Lawful True
  exact lawful_rewriting id (fun _ => rfl) (fun _ => rfl) fun _ => .inl rfl

end Group

end SharedLedger
