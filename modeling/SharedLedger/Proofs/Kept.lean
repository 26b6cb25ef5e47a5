import SharedLedger.Proofs.Change

/-!
# What a lock stands for

`Kept` says what stays of a locked row while others commit, `Descends` what
stays of any row. Both hold over one step of somebody else's commit
(`Change.kept`, `Change.evolves`) and add up over many (`Base.changes`): the
tables a transaction has seen remain a good guess at the committed tables,
as good as its locks make it.
-/

namespace SharedLedger

namespace Tables

variable {t t' t'' : Tables} {new : Int → Prop} {held : RowKey → Prop}

/-- What stays of a locked group. Its members may lose accounts, but only
accounts that are deleted. -/
structure GroupKept (t t' : Tables) (g : Int) : Prop where
  row : t'.groups.find? g = t.groups.find? g
  member : ∀ m ∈ t.members.toList, m.groupId = g → m ∈ t'.members.toList ∨
    (m.unlinked ∈ t'.members.toList ∧ ∃ u, m.userId = some u ∧ t'.users.contains u = false)
  member_of : ∀ m ∈ t'.members.toList, m.groupId = g → t.HasMember g m.id
  expense : ∀ e ∈ t'.expenses.toList, e.groupId = g → e ∈ t.expenses.toList
  share : ∀ e ∈ t'.expenses.toList, e.groupId = g → ∀ s ∈ t'.shares.toList,
    s.expenseId = e.id → s ∈ t.shares.toList

/-- What stays of a locked expense: its row and its shares, or nothing at all,
and then its group is gone too. -/
def ExpenseKept (t t' : Tables) (id : Int) : Prop :=
  (t'.expenses.find? id = t.expenses.find? id ∧ t'.sharesOf id = t.sharesOf id) ∨
  (t'.expenses.contains id = false ∧
    ∀ e, t.expenses.find? id = some e → t'.groups.contains e.groupId = false)

/-- What stays of a locked row. -/
def Kept (t t' : Tables) : RowKey → Prop
  | ⟨.users, id⟩ => t'.users.find? id = t.users.find? id
  | ⟨.groups, id⟩ => GroupKept t t' id
  | ⟨.expenses, id⟩ => ExpenseKept t t' id
  | ⟨.members, _⟩ | ⟨.shares, _⟩ => True

/-! ## Over one step -/

theorem HasMember.of_mem {m : Member} (h : m ∈ t.members.toList) : t.HasMember m.groupId m.id :=
  ⟨m, Index.find?_of_mem h, rfl⟩

/-- A group is kept by whoever leaves its row, its members, its expenses and
their shares alone. -/
theorem GroupKept.refl (t : Tables) (g : Int) : GroupKept t t g where
  row := rfl
  member _ hm _ := .inl hm
  member_of _ hm hg := hg ▸ HasMember.of_mem hm
  expense _ he _ := he
  share _ _ _ _ hs _ := hs

/-- The members of a group stay its members when an account is deleted, whether
or not they were linked to it. -/
theorem groupKept_dropUser (t : Tables) (id g : Int) : GroupKept t (dropUser t id) g where
  row := rfl
  member m hm _ := by
    by_cases hu : m.userId = some id
    · refine .inr ⟨mem_members_dropUser.2 ⟨m, hm, if_pos hu⟩, id, hu, ?_⟩
      exact Index.contains_eq_false_iff.2 ((Index.find?_erase _ _ _).trans (if_pos rfl))
    · exact .inl (mem_members_dropUser.2 ⟨m, hm, if_neg hu⟩)
  member_of m hm hg := by
    obtain ⟨o, ho, rfl⟩ := mem_members_dropUser.1 hm
    have hid : (if o.userId = some id then o.unlinked else o).id = o.id := by split <;> rfl
    have hgrp : (if o.userId = some id then o.unlinked else o).groupId = o.groupId := by
      split <;> rfl
    rw [hgrp] at hg
    rw [hid, ← hg]
    exact HasMember.of_mem ho
  expense _ he _ := he
  share _ _ _ _ hs _ := hs

/-- A member that is put into another group is no concern of this one. -/
theorem groupKept_putMember {g : Int} {m : Member} (hg : m.groupId ≠ g)
    (hid : t.members.contains m.id = false ∨
      ∃ o, t.members.find? m.id = some o ∧ o.groupId = m.groupId) :
    GroupKept t { t with members := t.members.put m } g where
  row := rfl
  member o ho hog := by
    -- the row whose place it takes, if any, is of that other group too
    refine .inl ((Index.mem_put _ _ _).2 (.inr ⟨ho, fun hom => hg ?_⟩))
    rcases hid with hfree | ⟨p, hp, hpg⟩
    · exact absurd hom (Index.ne_of_contains_eq_false hfree ho)
    · have hpo : some o = some p := (Index.find?_of_mem ho).symm.trans (hom ▸ hp)
      cases hpo
      exact hpg.symm.trans hog
  member_of o ho hog := by
    rcases (Index.mem_put _ _ _).1 ho with rfl | ⟨ho, -⟩
    · exact absurd hog hg
    · exact hog ▸ HasMember.of_mem ho
  expense _ he _ := he
  share _ _ _ _ hs _ := hs

theorem groupKept_dropGroup {g k : Int} (hk : k ≠ g) : GroupKept t (dropGroup t k) g where
  row := (Index.find?_erase _ _ _).trans (if_neg hk)
  member m hm hg := by
    refine .inl ((Index.mem_filter _ _ _).2 ⟨hm, ?_⟩)
    simpa [hg] using hk.symm
  member_of m hm hg := hg ▸ HasMember.of_mem ((Index.mem_filter _ _ _).1 hm).1
  expense _ he _ := ((Index.mem_filter _ _ _).1 he).1
  share _ _ _ _ hs _ := (mem_shares_dropGroup.1 hs).1

/-- With a group go its expenses, and all others stay. -/
theorem expenseKept_dropGroup (t : Tables) (g id : Int) : ExpenseKept t (dropGroup t g) id := by
  by_cases hin : ∃ e, t.expenses.find? id = some e ∧ e.groupId = g
  · obtain ⟨e, he, rfl⟩ := hin
    refine .inr ⟨?_, fun e' he' => ?_⟩
    · rw [Index.contains_eq_false_iff]
      simp [Tables.dropGroup, Index.find?_filter, he]
    · rw [he] at he'
      cases he'
      exact Index.contains_eq_false_iff.2 ((Index.find?_erase _ _ _).trans (if_pos rfl))
  · refine .inl ⟨?_, ?_⟩
    · refine (Index.find?_filter _ _ _).trans ?_
      cases he : t.expenses.find? id with
      | none => rfl
      | some e =>
        have hg : e.groupId ≠ g := fun hg => hin ⟨e, he, hg⟩
        simp [hg]
    · refine Index.filter_eq_of_ascending (t.shares.ascending.filter _) fun s => ?_
      rw [mem_shares_dropGroup, mem_sharesOf, beq_iff_eq]
      constructor
      · rintro ⟨⟨hs, -⟩, hid⟩
        exact ⟨hs, hid⟩
      · rintro ⟨hs, hid⟩
        refine ⟨⟨hs, fun e he hg hkey => hin ⟨e, ?_, hg⟩⟩, hid⟩
        rw [← hid, ← hkey]
        exact Index.find?_of_mem he

theorem Change.user_kept (h : Change new held t t') {id : Int} (hheld : ¬ held ⟨.users, id⟩)
    (hnew : ¬ new id) : t'.users.find? id = t.users.find? id := by
  cases h with
  | putUser u hid _ =>
    have hne : u.id ≠ id := by
      rintro rfl
      exact hid.elim hnew fun h => hheld h.1
    exact (Index.find?_put _ _ _).trans (if_neg hne)
  | dropUser k hid =>
    have hne : k ≠ id := by
      rintro rfl
      exact hheld hid
    exact (Index.find?_erase _ _ _).trans (if_neg hne)
  | _ => rfl

theorem Change.group_kept (h : Change new held t t') {g : Int} (hheld : ¬ held ⟨.groups, g⟩)
    (hnew : ¬ new g) : GroupKept t t' g := by
  have hr := GroupKept.refl t g
  -- whoever touches a group has locked it or has just created it
  have hne : ∀ {k}, new k ∨ held ⟨.groups, k⟩ → k ≠ g := by
    rintro k hk rfl
    exact hk.elim hnew hheld
  cases h with
  | putUser u _ _ => exact { hr with member := fun m hm _ => .inl hm }
  -- the one change that needs no lock of the group: its members lose the account
  | dropUser id _ => exact groupKept_dropUser t id g
  | putGroup k hid =>
    have hk : k.id ≠ g := hne (hid.imp id And.left)
    exact { hr with
      row := (Index.find?_put _ _ _).trans (if_neg hk)
      member := fun m hm _ => .inl hm }
  | putMember m hid hg _ => exact groupKept_putMember (hne hg) (hid.imp_left And.right)
  | dropMembers k hk _ =>
    have hk' : k ≠ g := hne (.inr hk)
    refine { hr with member := fun m hm hg => .inl ?_, member_of := fun m hm => ?_ }
    · refine (Index.mem_filter _ _ _).2 ⟨hm, ?_⟩
      simpa [hg] using hk'.symm
    · exact hr.member_of m ((Index.mem_filter _ _ _).1 hm).1
  | dropGroup k hk => exact groupKept_dropGroup (hne (.inr hk))
  | putExpense e _ hg _ _ _ =>
    have hg' : e.groupId ≠ g := hne (.inr hg)
    refine { hr with
      member := fun m hm _ => .inl hm
      expense := fun o ho hog => ?_
      share := fun o ho hog s hs _ => hs }
    rcases (Index.mem_put _ _ _).1 ho with rfl | ⟨ho, -⟩
    · exact absurd hog hg'
    · exact ho
  | dropShares id _ =>
    exact { hr with
      member := fun m hm _ => .inl hm
      share := fun e _ _ s hs _ => ((Index.mem_filter _ _ _).1 hs).1 }
  | putShares e ss _ hg he _ hnew' hasc hfit _ =>
    refine { hr with
      member := fun m hm _ => .inl hm
      share := fun o ho hog s hs hso => ?_ }
    rcases (mem_putShares (fun s hs => (hnew' s hs).2) hasc s).1 hs with hs | hs
    · have hid : e.id = o.id := (hfit s hs).1.symm.trans hso
      have heo : o = e := Option.some.inj ((Index.find?_of_mem ho).symm.trans (hid ▸ he))
      exact absurd (heo ▸ hog) (hne (.inr hg))
    · exact hs
  | eraseExpense id _ _ =>
    exact { hr with
      member := fun m hm _ => .inl hm
      expense := fun e he _ => ((Index.mem_erase _ _ _).1 he).1
      share := fun e _ _ s hs _ => hs }

theorem Change.expense_kept (h : Change new held t t') {id : Int} (hheld : ¬ held ⟨.expenses, id⟩)
    (hnew : ¬ new id) : ExpenseKept t t' id := by
  have hne : ∀ {k}, new k ∨ held ⟨.expenses, k⟩ → k ≠ id := by
    rintro k hk rfl
    exact hk.elim hnew hheld
  cases h with
  | putExpense e hid _ _ _ _ =>
    have hk : e.id ≠ id := hne (hid.imp And.left And.left)
    exact .inl ⟨(Index.find?_put _ _ _).trans (if_neg hk), rfl⟩
  | dropShares k hid =>
    refine .inl ⟨rfl, ?_⟩
    rw [sharesOf_dropShares, List.filter_eq_self]
    intro s hs
    rw [(mem_sharesOf.1 hs).2]
    simpa using (hne hid).symm
  | putShares e ss hid _ _ _ hnew' hasc hfit _ =>
    exact .inl ⟨rfl, sharesOf_putShares_of_ne (fun s hs => (hnew' s hs).2) hasc
      (fun s hs => (hfit s hs).1) (hne hid).symm⟩
  | eraseExpense k hid _ =>
    exact .inl ⟨(Index.find?_erase _ _ _).trans (if_neg (hne (.inr hid))), rfl⟩
  -- the one change that takes an expense away without its lock, and then the group too
  | dropGroup g _ => exact expenseKept_dropGroup t g id
  | _ => exact .inl ⟨rfl, rfl⟩

/-- **Nobody changes what somebody else's lock stands for.** -/
theorem Change.kept (h : Change new held t t') {key : RowKey} (hheld : ¬ held key)
    (hnew : ¬ new key.id) : Kept t t' key := by
  obtain ⟨table, id⟩ := key
  cases table with
  | users => exact h.user_kept hheld hnew
  | groups => exact h.group_kept hheld hnew
  | expenses => exact h.expense_kept hheld hnew
  | members => trivial
  | shares => trivial

theorem Kept.refl (t : Tables) (key : RowKey) : Kept t t key := by
  obtain ⟨table, id⟩ := key
  cases table with
  | users => rfl
  | groups => exact GroupKept.refl t id
  | expenses => exact .inl ⟨rfl, rfl⟩
  | members => trivial
  | shares => trivial

/-! ## Over many steps -/

/-- Rows that were deleted do not come back: what is in `t` and in `t''` is in
`t'` as well. -/
def Persists (t t' t'' : Tables) : Prop :=
  ∀ table id, t.contains table id = true → t''.contains table id = true → t'.contains table id = true

theorem Evolves.persists (h : Evolves new t' t'')
    (hold : ∀ table id, t.contains table id = true → ¬ new id) : Persists t t' t'' :=
  fun table id ht ht'' => (h.contains ht'').resolve_left (hold table id ht)

/-- What is gone stays gone. -/
theorem Persists.contains_eq_false (h : Persists t t' t'') (table : Table) {id : Int}
    (ht : t.contains table id = true) (hgone : t'.contains table id = false) :
    t''.contains table id = false := by
  by_contra hc
  have := h table id ht (by simpa using hc)
  rw [hgone] at this
  cases this

theorem GroupKept.trans {g : Int} (ht : t.Consistent) (hp : Persists t t' t'')
    (h : GroupKept t t' g) (h' : GroupKept t' t'' g) : GroupKept t t'' g where
  row := h'.row.trans h.row
  member m hm hg := by
    rcases h.member m hm hg with hm' | ⟨hm', u, hu, hgone⟩
    · exact h'.member m hm' hg
    -- an account that is deleted does not come back under its id
    · have hgone' : t''.users.contains u = false :=
        hp.contains_eq_false .users (ht.member_user m hm u hu) hgone
      rcases h'.member m.unlinked hm' hg with hm'' | ⟨-, v, hv, -⟩
      · exact .inr ⟨hm'', u, hu, hgone'⟩
      · cases hv
  member_of m hm hg := by
    obtain ⟨o, ho, hog⟩ := h'.member_of m hm hg
    have hid : o.id = m.id := Index.key_of_find? ho
    exact hid ▸ h.member_of o (Index.mem_of_find? ho) hog
  expense e he hg := h.expense e (h'.expense e he hg) hg
  share e he hg s hs hse :=
    h.share e (h'.expense e he hg) hg s (h'.share e he hg s hs hse) hse

theorem ExpenseKept.trans {id : Int} (ht : t.Consistent) (hc : t.expenses.contains id = true)
    (hp : Persists t t' t'') (h : ExpenseKept t t' id) (h' : ExpenseKept t' t'' id) :
    ExpenseKept t t'' id := by
  rcases h with ⟨hrow, hshares⟩ | ⟨hgone, hgroup⟩
  · rcases h' with ⟨hrow', hshares'⟩ | ⟨hgone', hgroup'⟩
    · exact .inl ⟨hrow'.trans hrow, hshares'.trans hshares⟩
    · exact .inr ⟨hgone', fun e he => hgroup' e (hrow.trans he)⟩
  · refine .inr ⟨hp.contains_eq_false .expenses hc hgone, fun e he => ?_⟩
    have hg : t.groups.contains e.groupId = true := ht.expense_group e (Index.mem_of_find? he)
    exact hp.contains_eq_false .groups hg (hgroup e he)

/-- What a lock stands for is kept over any number of steps. -/
theorem Kept.trans {key : RowKey} (ht : t.Consistent) (hc : t.contains key.table key.id = true)
    (hp : Persists t t' t'') (h : Kept t t' key) (h' : Kept t' t'' key) : Kept t t'' key := by
  obtain ⟨table, id⟩ := key
  cases table with
  | users => exact Eq.trans h' h
  | groups => exact GroupKept.trans ht hp h h'
  | expenses => exact ExpenseKept.trans ht hc hp h h'
  | members => trivial
  | shares => trivial

/-- Rows of the same id in older and in newer tables: members and expenses are
of the same group, and shares are the same. -/
structure Descends (t t' : Tables) : Prop where
  member : ∀ m ∈ t.members.toList, ∀ m' ∈ t'.members.toList, m'.id = m.id → m'.groupId = m.groupId
  expense : ∀ e ∈ t.expenses.toList, ∀ e' ∈ t'.expenses.toList, e'.id = e.id →
    e'.groupId = e.groupId
  share : ∀ s ∈ t.shares.toList, ∀ s' ∈ t'.shares.toList, s'.id = s.id → s' = s

theorem Descends.refl (t : Tables) : Descends t t where
  member m hm m' hm' h := by rw [t.members.eq_of_key_eq hm' hm h]
  expense e he e' he' h := by rw [t.expenses.eq_of_key_eq he' he h]
  share _ hs _ hs' h := t.shares.eq_of_key_eq hs' hs h

theorem Descends.evolves (h : Descends t t') (he : Evolves new t' t'')
    (hold : ∀ table id, t.contains table id = true → ¬ new id) : Descends t t'' where
  member m hm m' hm' hid := by
    have hnew := hold .members m.id (Index.contains_of_mem hm)
    obtain ⟨o, ho, hoid, hog⟩ := (he.member m' hm').resolve_left (hid ▸ hnew)
    rw [← hog]
    exact h.member m hm o ho (hoid.trans hid)
  expense e hm e' he' hid := by
    have hnew := hold .expenses e.id (Index.contains_of_mem hm)
    obtain ⟨o, ho, hoid, hog⟩ := (he.expense e' he').resolve_left (hid ▸ hnew)
    rw [← hog]
    exact h.expense e hm o ho (hoid.trans hid)
  share s hs s' hs' hid := by
    have hnew := hold .shares s.id (Index.contains_of_mem hs)
    exact h.share s hs s' ((he.share s' hs').resolve_left (hid ▸ hnew)) hid

/-- **Tables a transaction may go by**: older tables, and the locks under which
they are still a good guess at the tables as they are. -/
structure Base (locked : List RowKey) (t t' : Tables) : Prop where
  consistent : t.Consistent
  descends : Descends t t'
  locked_exists : ∀ key ∈ locked, t.contains key.table key.id = true
  kept : ∀ key ∈ locked, Kept t t' key

theorem Base.refl {locked : List RowKey} (ht : t.Consistent)
    (hex : ∀ key ∈ locked, t.contains key.table key.id = true) : Base locked t t where
  consistent := ht
  descends := .refl t
  locked_exists := hex
  kept key _ := .refl t key

/-- Tables are up to date for one who has locked a row of them. -/
theorem Base.refl_singleton {key : RowKey} (ht : t.Consistent)
    (hin : t.contains key.table key.id = true) : Base [key] t t :=
  .refl ht fun k hk => by
    rw [List.mem_singleton.1 hk]
    exact hin

/-- Tables that are a base for some locks are one for fewer. -/
theorem Base.mono {locked fewer : List RowKey} (h : Base locked t t')
    (hsub : ∀ key ∈ fewer, key ∈ locked) : Base fewer t t' where
  consistent := h.consistent
  descends := h.descends
  locked_exists key hkey := h.locked_exists key (hsub key hkey)
  kept key hkey := h.kept key (hsub key hkey)

theorem Base.change {locked : List RowKey} (h : Base locked t t') (hc : Change new held t' t'')
    (hold : ∀ table id, t.contains table id = true → ¬ new id)
    (hother : ∀ key ∈ locked, ¬ held key) : Base locked t t'' where
  consistent := h.consistent
  descends := h.descends.evolves hc.evolves hold
  locked_exists := h.locked_exists
  kept key hkey := by
    -- a row that existed when it was locked is not one of the new ones
    have hex := h.locked_exists key hkey
    refine (h.kept key hkey).trans h.consistent hex (hc.evolves.persists hold) ?_
    exact hc.kept (hother key hkey) (hold key.table key.id hex)

/-- **Other transactions do not spoil a base.** -/
theorem Base.changes {locked : List RowKey} (h : Base locked t t') (hc : Changes new held t' t'')
    (hold : ∀ table id, t.contains table id = true → ¬ new id)
    (hother : ∀ key ∈ locked, ¬ held key) : Base locked t t'' := by
  induction hc with
  | refl => exact h
  | tail _ hc ih => exact ih.change hc hold hother

/-- A group that is locked still exists. -/
theorem Base.contains_group {locked : List RowKey} {g : Int} (hb : Base locked t t')
    (hg : (⟨.groups, g⟩ : RowKey) ∈ locked) : t'.groups.contains g = true := by
  have ht : t.groups.contains g = true := hb.locked_exists _ hg
  have hkept : GroupKept t t' g := hb.kept _ hg
  exact (Index.contains_congr hkept.row).trans ht

/-- The same members, by id, are in a locked group. -/
theorem Base.hasMember_iff {locked : List RowKey} {g m : Int} (hb : Base locked t t')
    (hg : (⟨.groups, g⟩ : RowKey) ∈ locked) : t'.HasMember g m ↔ t.HasMember g m := by
  have hkept : GroupKept t t' g := hb.kept _ hg
  constructor
  · rintro ⟨o, ho, hog⟩
    rw [← Index.key_of_find? ho]
    exact hkept.member_of o (Index.mem_of_find? ho) hog
  · rintro ⟨o, ho, hog⟩
    rw [← Index.key_of_find? ho]
    rcases hkept.member o (Index.mem_of_find? ho) hog with hmem | ⟨hmem, -⟩
    · exact hog ▸ HasMember.of_mem hmem
    · have hu : t'.HasMember o.unlinked.groupId o.unlinked.id := HasMember.of_mem hmem
      exact hog ▸ hu

theorem hasMember_iff_mem {g m : Int} :
    t.HasMember g m ↔ ∃ o ∈ t.membersOf g, o.id = m := by
  constructor
  · rintro ⟨o, ho, hg⟩
    exact ⟨o, mem_membersOf.2 ⟨Index.mem_of_find? ho, hg⟩, Index.key_of_find? ho⟩
  · rintro ⟨o, ho, rfl⟩
    obtain ⟨hmem, hg⟩ := mem_membersOf.1 ho
    exact hg ▸ HasMember.of_mem hmem

/-- A locked expense whose group is locked as well is what it was. -/
theorem Base.expense_kept {locked : List RowKey} {e : Expense} (hb : Base locked t t')
    (he : t.expenses.find? e.id = some e) (hid : (⟨.expenses, e.id⟩ : RowKey) ∈ locked)
    (hg : (⟨.groups, e.groupId⟩ : RowKey) ∈ locked) :
    t'.expenses.find? e.id = some e ∧ t'.sharesOf e.id = t.sharesOf e.id := by
  have hkept : ExpenseKept t t' e.id := hb.kept _ hid
  rcases hkept with ⟨hrow, hshares⟩ | ⟨-, hgone⟩
  · exact ⟨hrow.trans he, hshares⟩
  · have hin := hb.contains_group hg
    rw [hgone e he] at hin
    cases hin

end Tables

end SharedLedger
