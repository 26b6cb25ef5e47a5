import SharedLedger.Proofs.Decimal
import SharedLedger.Proofs.Tables
import Mathlib.Algebra.BigOperators.Group.List.Basic

/-!
# Consistent tables

What holds of the committed tables at all times (`Tables.Consistent`):
addresses are unique, rows refer to rows that exist and to rows of their own
group, an account is linked to one member of a group at most, and the shares
of an expense are none or a full set for the amount the expense has. The
second half says of every elementary change of the tables when it keeps them
consistent.
-/

namespace SharedLedger

/-- **A full set of shares for an amount**: the fractions sum to exactly one,
and the total of the amounts, added up in order, is within one cent of it. -/
structure Sharing.Full (amount : Decimal) (ss : List Share) : Prop where
  fractions : (ss.map fun s => s.fraction.value).sum = 1
  amounts : ∃ total, Decimal.total (ss.map (·.amount)) = .ok total ∧
    |total.value - amount.value| ≤ 1 / 100

/-- A share in order, for an expense of the given amount. -/
structure Share.Fits (s : Share) (amount : Decimal) : Prop where
  fraction_nonneg : 0 ≤ s.fraction.value
  fraction_le_one : s.fraction.value ≤ 1
  amount_pos : 0 < s.amount.value
  expenseAmount_eq : s.expenseAmount.value = amount.value

namespace Tables

/-- Whether a member row of the given id belongs to the group. -/
def HasMember (t : Tables) (groupId memberId : Int) : Prop :=
  ∃ m, t.members.find? memberId = some m ∧ m.groupId = groupId

/-- **The invariant of the tables.** -/
structure Consistent (t : Tables) : Prop where
  /-- Addresses are unique. -/
  email_unique : ∀ u ∈ t.users.toList, ∀ v ∈ t.users.toList, u.email = v.email → u = v
  /-- The group of a member exists. -/
  member_group : ∀ m ∈ t.members.toList, t.groups.contains m.groupId = true
  /-- The account a member is linked to exists. -/
  member_user : ∀ m ∈ t.members.toList, ∀ u, m.userId = some u → t.users.contains u = true
  /-- An account is linked to one member of a group at most. -/
  link_unique : ∀ m ∈ t.members.toList, ∀ o ∈ t.members.toList, m.groupId = o.groupId →
    ∀ u, m.userId = some u → o.userId = some u → m = o
  /-- The group of an expense exists. -/
  expense_group : ∀ e ∈ t.expenses.toList, t.groups.contains e.groupId = true
  /-- An expense was paid by a member of its group. -/
  expense_payer : ∀ e ∈ t.expenses.toList, t.HasMember e.groupId e.paidBy
  /-- The amount of an expense is not negative. -/
  expense_amount : ∀ e ∈ t.expenses.toList, 0 ≤ e.amount.value
  /-- A share belongs to an expense, is in order for its amount, and is owed by
  nobody or by a member of the group of the expense. -/
  share_expense : ∀ s ∈ t.shares.toList, ∃ e, t.expenses.find? s.expenseId = some e ∧
    s.Fits e.amount ∧ ∀ m, s.owedBy = some m → t.HasMember e.groupId m
  /-- An expense has no shares or a full set. -/
  shares_full : ∀ e ∈ t.expenses.toList,
    t.sharesOf e.id = [] ∨ Sharing.Full e.amount (t.sharesOf e.id)

variable {t : Tables}

theorem consistent_empty : empty.Consistent where
  email_unique _ h := by cases h
  member_group _ h := by cases h
  member_user _ h := by cases h
  link_unique _ h := by cases h
  expense_group _ h := by cases h
  expense_payer _ h := by cases h
  expense_amount _ h := by cases h
  share_expense _ h := by cases h
  shares_full _ h := by cases h

/-! ## Rows and references -/

theorem mem_sharesOf {id : Int} {s : Share} :
    s ∈ t.sharesOf id ↔ s ∈ t.shares.toList ∧ s.expenseId = id := by
  simp [sharesOf]

theorem ne_of_sharesOf_eq_nil {id : Int} {s : Share} (h : t.sharesOf id = [])
    (hs : s ∈ t.shares.toList) : s.expenseId ≠ id := by
  intro hid
  have hmem := mem_sharesOf.2 ⟨hs, hid⟩
  rw [h] at hmem
  cases hmem

theorem mem_membersOf {id : Int} {m : Member} :
    m ∈ t.membersOf id ↔ m ∈ t.members.toList ∧ m.groupId = id := by
  simp [membersOf]

/-- Who is a member of a group finds it there. -/
theorem Consistent.contains_of_linked (h : t.Consistent) {g u : Int}
    (hlinked : ∃ m ∈ t.membersOf g, m.userId = some u) : t.groups.contains g = true := by
  obtain ⟨m, hm, -⟩ := hlinked
  obtain ⟨hmem, hmg⟩ := mem_membersOf.1 hm
  exact hmg ▸ h.member_group m hmem

theorem mem_expensesOf {id : Int} {e : Expense} :
    e ∈ t.expensesOf id ↔ e ∈ t.expenses.toList ∧ e.groupId = id := by
  simp [expensesOf]

theorem contains_put_of_contains {α : Type} {key : α → Int} {m : Index key} {a : α} {k : Int}
    (h : m.contains k = true) : (m.put a).contains k = true := by
  rw [Index.contains_eq_true_iff, Index.find?_put]
  split
  · exact ⟨a, rfl⟩
  · exact Index.contains_eq_true_iff.1 h

/-- A member row that takes the place of another one of its group keeps
everybody a member who was one. -/
theorem HasMember.put {g id : Int} {m : Member} (h : t.HasMember g id)
    (hm : ∀ o, t.members.find? m.id = some o → o.groupId = m.groupId) :
    HasMember { t with members := t.members.put m } g id := by
  obtain ⟨o, ho, hg⟩ := h
  unfold HasMember
  simp only [Index.find?_put]
  by_cases hid : m.id = id
  · subst hid
    exact ⟨m, by simp, (hm o ho).symm.trans hg⟩
  · exact ⟨o, by simp [hid, ho], hg⟩

/-! ## Tables after a change -/

/-- The tables after an account is deleted. -/
def dropUser (t : Tables) (id : Int) : Tables :=
  (t.enact (.unlinkUser id)).enact (.delete .users id)

theorem mem_members_dropUser {id : Int} {m : Member} :
    m ∈ (dropUser t id).members.toList ↔
      ∃ o ∈ t.members.toList, (if o.userId = some id then o.unlinked else o) = m := by
  simp [dropUser, enact, Member.isLinkedTo]

theorem hasMember_dropUser {id g m : Int} (h : t.HasMember g m) : (dropUser t id).HasMember g m := by
  obtain ⟨o, ho, hg⟩ := h
  simp only [HasMember, dropUser, enact, Index.find?_map, ho, Option.map_some, Option.some.injEq]
  refine ⟨_, rfl, ?_⟩
  split <;> exact hg

/-- Whoever is a member of another group stays one when a group loses its
members. -/
theorem hasMember_dropMembers {g k m : Int} (h : t.HasMember k m) (hne : k ≠ g) :
    (t.dropMembers fun m => m.groupId == g).HasMember k m := by
  obtain ⟨o, ho, hg⟩ := h
  refine ⟨o, ?_, hg⟩
  simp [dropMembers, Index.find?_filter, ho, hg, hne]

theorem sharesOf_dropShares {p : Share → Bool} {id : Int} :
    (t.dropShares p).sharesOf id = (t.sharesOf id).filter fun s => !p s := by
  simp only [sharesOf, dropShares, Index.toList_filter, List.filter_filter]
  congr 1
  funext s
  exact Bool.and_comm _ _

/-- The tables with the shares put in one after the other. -/
def putShares (t : Tables) (ss : List Share) : Tables :=
  { t with shares := ss.foldl Index.put t.shares }

theorem mem_putShares {ss : List Share} (hnew : ∀ s ∈ ss, t.shares.contains s.id = false)
    (hasc : ss.Pairwise fun a b => a.id < b.id) (s : Share) :
    s ∈ (putShares t ss).shares.toList ↔ s ∈ ss ∨ s ∈ t.shares.toList :=
  Index.mem_foldl_put hnew hasc s

/-- The shares of an expense that had none are those put in, in order. -/
theorem sharesOf_putShares {ss : List Share} {id : Int}
    (hnew : ∀ s ∈ ss, t.shares.contains s.id = false) (hasc : ss.Pairwise fun a b => a.id < b.id)
    (hid : ∀ s ∈ ss, s.expenseId = id) (hnone : t.sharesOf id = []) :
    (putShares t ss).sharesOf id = ss := by
  refine Index.filter_eq_of_ascending ?_ fun s => ?_
  · exact hasc.imp fun hab => decide_eq_true hab
  · rw [mem_putShares hnew hasc, beq_iff_eq]
    constructor
    · rintro ⟨hs | hs, he⟩
      · exact hs
      · exact absurd he (ne_of_sharesOf_eq_nil hnone hs)
    · exact fun hs => ⟨.inl hs, hid s hs⟩

theorem sharesOf_putShares_of_ne {ss : List Share} {id k : Int}
    (hnew : ∀ s ∈ ss, t.shares.contains s.id = false) (hasc : ss.Pairwise fun a b => a.id < b.id)
    (hid : ∀ s ∈ ss, s.expenseId = id) (hne : k ≠ id) :
    (putShares t ss).sharesOf k = t.sharesOf k := by
  refine Index.filter_eq_of_ascending (t.shares.ascending.filter _) fun s => ?_
  rw [mem_putShares hnew hasc, mem_sharesOf, beq_iff_eq]
  constructor
  · rintro ⟨hs | hs, he⟩
    · exact absurd (he.symm.trans (hid s hs)) hne
    · exact ⟨hs, he⟩
  · exact fun hs => ⟨.inr hs.1, hs.2⟩

/-- The tables without a group and everything in it. -/
def dropGroup (t : Tables) (g : Int) : Tables where
  users := t.users
  groups := t.groups.erase g
  members := t.members.filter fun m => m.groupId != g
  expenses := t.expenses.filter fun e => e.groupId != g
  shares := t.shares.filter fun s => !(t.expensesOf g).any fun e => e.id == s.expenseId

theorem mem_shares_dropGroup {g : Int} {s : Share} :
    s ∈ (dropGroup t g).shares.toList ↔
      s ∈ t.shares.toList ∧ ∀ e ∈ t.expenses.toList, e.groupId = g → e.id ≠ s.expenseId := by
  simp only [dropGroup, Index.mem_filter, Bool.not_eq_true', List.any_eq_false, mem_expensesOf,
    beq_iff_eq]
  constructor
  · rintro ⟨hs, h⟩
    exact ⟨hs, fun e he hg => h e ⟨he, hg⟩⟩
  · rintro ⟨hs, h⟩
    exact ⟨hs, fun e he => h e he.1 he.2⟩

theorem hasMember_dropGroup {g k m : Int} (h : t.HasMember k m) (hne : k ≠ g) :
    (dropGroup t g).HasMember k m := by
  obtain ⟨o, ho, hg⟩ := h
  refine ⟨o, ?_, hg⟩
  simp [dropGroup, Index.find?_filter, ho, hg, hne]

theorem contains_dropGroup {g k : Int} (h : t.groups.contains k = true) (hne : k ≠ g) :
    (dropGroup t g).groups.contains k = true := by
  rw [Index.contains_eq_true_iff] at h ⊢
  obtain ⟨r, hr⟩ := h
  exact ⟨r, by simp [dropGroup, Index.find?_erase, hne.symm, hr]⟩

namespace Consistent

/-- The expense of a share is the one of its id. -/
theorem expense_of_share (h : t.Consistent) {s : Share} (hs : s ∈ t.shares.toList) :
    ∃ e ∈ t.expenses.toList, e.id = s.expenseId ∧ s.Fits e.amount ∧
      ∀ m, s.owedBy = some m → t.HasMember e.groupId m := by
  obtain ⟨e, he, hfit, hm⟩ := h.share_expense s hs
  exact ⟨e, Index.mem_of_find? he, Index.key_of_find? he, hfit, hm⟩

/-- There are no shares of an expense that does not exist. -/
theorem sharesOf_eq_nil (h : t.Consistent) {id : Int} (hid : t.expenses.contains id = false) :
    t.sharesOf id = [] := by
  rw [List.eq_nil_iff_forall_not_mem]
  intro s hs
  obtain ⟨hs, hid'⟩ := mem_sharesOf.1 hs
  obtain ⟨e, he, hkey, -⟩ := h.expense_of_share hs
  exact Index.ne_of_contains_eq_false hid he (hkey.trans hid')

/-! ## Accounts and groups -/

theorem putUser (h : t.Consistent) {u : User}
    (hemail : ∀ v ∈ t.users.toList, v.email = u.email → v.id = u.id) :
    Consistent { t with users := t.users.put u } :=
  { h with
    email_unique := by
      intro v hv w hw he
      rcases (Index.mem_put _ _ _).1 hv with rfl | ⟨hv', hvne⟩ <;>
        rcases (Index.mem_put _ _ _).1 hw with rfl | ⟨hw', hwne⟩
      · rfl
      · exact absurd (hemail w hw' he.symm) hwne
      · exact absurd (hemail v hv' he) hvne
      · exact h.email_unique v hv' w hw' he
    member_user := fun m hm v hv => contains_put_of_contains (h.member_user m hm v hv) }

theorem dropUser_of (h : t.Consistent) (id : Int) : (dropUser t id).Consistent :=
  { h with
    email_unique := by
      intro u hu v hv he
      exact h.email_unique u ((Index.mem_erase _ _ _).1 hu).1 v ((Index.mem_erase _ _ _).1 hv).1 he
    member_group := by
      intro m hm
      obtain ⟨o, ho, rfl⟩ := mem_members_dropUser.1 hm
      have := h.member_group o ho
      split <;> exact this
    member_user := by
      intro m hm u hu
      obtain ⟨o, ho, rfl⟩ := mem_members_dropUser.1 hm
      split at hu
      · cases hu
      · next hne =>
        rw [Index.contains_eq_true_iff]
        obtain ⟨v, hv⟩ := Index.contains_eq_true_iff.1 (h.member_user o ho u hu)
        refine ⟨v, ?_⟩
        have hid : id ≠ u := fun he => hne (he ▸ hu)
        simp [dropUser, enact, Index.find?_erase, hid, hv]
    -- members that lose the account are linked to nobody, all others are as before
    link_unique := by
      intro m hm o ho hg u hu hu'
      obtain ⟨m₀, hm₀, rfl⟩ := mem_members_dropUser.1 hm
      obtain ⟨o₀, ho₀, rfl⟩ := mem_members_dropUser.1 ho
      split at hu
      · cases hu
      · next hmne =>
        split at hu'
        · cases hu'
        · next hone =>
          rw [if_neg hmne, if_neg hone] at hg ⊢
          exact h.link_unique m₀ hm₀ o₀ ho₀ hg u hu hu'
    expense_payer := fun e he => hasMember_dropUser (h.expense_payer e he)
    share_expense := by
      intro s hs
      obtain ⟨e, he, hfit, hm⟩ := h.share_expense s hs
      exact ⟨e, he, hfit, fun m hm' => hasMember_dropUser (hm m hm')⟩ }

theorem putGroup (h : t.Consistent) (g : Group) :
    Consistent { t with groups := t.groups.put g } :=
  { h with
    member_group := fun m hm => contains_put_of_contains (h.member_group m hm)
    expense_group := fun e he => contains_put_of_contains (h.expense_group e he) }

/-! ## Members -/

theorem putMember (h : t.Consistent) {m : Member}
    (hrow : ∀ o, t.members.find? m.id = some o → o.groupId = m.groupId)
    (hok : t.check (.put (.member m)) = .ok ()) :
    Consistent { t with members := t.members.put m } := by
  obtain ⟨hg, hu⟩ := check_put_member.1 hok
  exact
  { h with
    member_group := by
      intro o ho
      rcases (Index.mem_put _ _ _).1 ho with rfl | ⟨ho, -⟩
      · exact hg
      · exact h.member_group o ho
    member_user := by
      intro o ho u hou
      rcases (Index.mem_put _ _ _).1 ho with rfl | ⟨ho, -⟩
      · exact (hu u hou).1
      · exact h.member_user o ho u hou
    link_unique := by
      intro o ho p hp hgrp u hou hpu
      rcases (Index.mem_put _ _ _).1 ho with rfl | ⟨ho', hone⟩ <;>
        rcases (Index.mem_put _ _ _).1 hp with rfl | ⟨hp', hpne⟩
      · rfl
      · exact absurd ((hu u hou).2 p hp' hgrp.symm hpu) hpne
      · exact absurd ((hu u hpu).2 o ho' hgrp hou) hone
      · exact h.link_unique o ho' p hp' hgrp u hou hpu
    expense_payer := fun e he => (h.expense_payer e he).put hrow
    share_expense := by
      intro s hs
      obtain ⟨e, he, hfit, hm⟩ := h.share_expense s hs
      exact ⟨e, he, hfit, fun n hn => (hm n hn).put hrow⟩ }

/-- A group without expenses can lose its members. -/
theorem dropMembers_of (h : t.Consistent) {g : Int}
    (hno : ∀ e ∈ t.expenses.toList, e.groupId ≠ g) :
    (t.dropMembers fun m => m.groupId == g).Consistent :=
  { h with
    member_group := fun m hm => h.member_group m ((Index.mem_filter _ _ _).1 hm).1
    member_user := fun m hm => h.member_user m ((Index.mem_filter _ _ _).1 hm).1
    link_unique := fun m hm o ho =>
      h.link_unique m ((Index.mem_filter _ _ _).1 hm).1 o ((Index.mem_filter _ _ _).1 ho).1
    expense_payer := fun e he => hasMember_dropMembers (h.expense_payer e he) (hno e he)
    share_expense := by
      intro s hs
      obtain ⟨e, he, hfit, hm⟩ := h.share_expense s hs
      exact ⟨e, he, hfit, fun n hn =>
        hasMember_dropMembers (hm n hn) (hno e (Index.mem_of_find? he))⟩ }

/-! ## Shares -/

theorem dropShares_of (h : t.Consistent) (id : Int) :
    (t.dropShares fun s => s.expenseId == id).Consistent :=
  { h with
    share_expense := fun s hs => h.share_expense s ((Index.mem_filter _ _ _).1 hs).1
    shares_full := by
      intro e he
      rw [sharesOf_dropShares]
      by_cases hid : e.id = id
      · left
        rw [List.filter_eq_nil_iff]
        intro s hs
        simp [(mem_sharesOf.1 hs).2, hid]
      · rw [List.filter_eq_self.2]
        · exact h.shares_full e he
        · intro s hs
          simp [(mem_sharesOf.1 hs).2, hid] }

/-- An expense without shares can get a full set. -/
theorem putShares_of (h : t.Consistent) {e : Expense} {ss : List Share}
    (he : t.expenses.find? e.id = some e) (hnone : t.sharesOf e.id = [])
    (hnew : ∀ s ∈ ss, t.shares.contains s.id = false) (hasc : ss.Pairwise fun a b => a.id < b.id)
    (hfit : ∀ s ∈ ss, s.expenseId = e.id ∧ s.Fits e.amount ∧
      ∀ m, s.owedBy = some m → t.HasMember e.groupId m)
    (hfull : Sharing.Full e.amount ss) : (putShares t ss).Consistent :=
  { h with
    share_expense := by
      intro s hs
      rcases (mem_putShares hnew hasc s).1 hs with hs | hs
      · obtain ⟨hid, hfit, hm⟩ := hfit s hs
        exact ⟨e, by rw [hid]; exact he, hfit, hm⟩
      · exact h.share_expense s hs
    shares_full := by
      intro e' he'
      by_cases hid : e'.id = e.id
      · have : e' = e := Option.some.inj ((Index.find?_of_mem he').symm.trans (hid ▸ he))
        subst this
        rw [sharesOf_putShares hnew hasc (fun s hs => (hfit s hs).1) hnone]
        exact .inr hfull
      · rw [sharesOf_putShares_of_ne hnew hasc (fun s hs => (hfit s hs).1) hid]
        exact h.shares_full e' he' }

/-! ## Expenses -/

/-- An expense can be put in, or in the place of one of its group that has no
shares or is of the same amount. -/
theorem putExpense (h : t.Consistent) {e : Expense} (hg : t.groups.contains e.groupId = true)
    (hpayer : t.HasMember e.groupId e.paidBy) (hamount : 0 ≤ e.amount.value)
    (hrow : ∀ o, t.expenses.find? e.id = some o → o.groupId = e.groupId ∧
      (t.sharesOf e.id = [] ∨ o.amount.value = e.amount.value)) :
    Consistent { t with expenses := t.expenses.put e } :=
  { h with
    expense_group := by
      intro o ho
      rcases (Index.mem_put _ _ _).1 ho with rfl | ⟨ho, -⟩
      · exact hg
      · exact h.expense_group o ho
    expense_payer := by
      intro o ho
      rcases (Index.mem_put _ _ _).1 ho with rfl | ⟨ho, -⟩
      · exact hpayer
      · exact h.expense_payer o ho
    expense_amount := by
      intro o ho
      rcases (Index.mem_put _ _ _).1 ho with rfl | ⟨ho, -⟩
      · exact hamount
      · exact h.expense_amount o ho
    share_expense := by
      intro s hs
      obtain ⟨o, ho, hfit, hm⟩ := h.share_expense s hs
      by_cases hid : e.id = s.expenseId
      -- a share of this very expense: there is none, or the amount it refers to is kept
      · obtain ⟨hgrp, hsame⟩ := hrow o (hid ▸ ho)
        have hval : o.amount.value = e.amount.value := by
          rcases hsame with hnil | hval
          · exact absurd hid.symm (ne_of_sharesOf_eq_nil hnil hs)
          · exact hval
        refine ⟨e, by rw [Index.find?_put, if_pos hid], { hfit with
          expenseAmount_eq := hfit.expenseAmount_eq.trans hval }, fun m hm' => ?_⟩
        rw [← hgrp]
        exact hm m hm'
      · exact ⟨o, by rw [Index.find?_put, if_neg hid]; exact ho, hfit, hm⟩
    shares_full := by
      intro o ho
      rcases (Index.mem_put _ _ _).1 ho with rfl | ⟨ho, -⟩
      · cases hfind : t.expenses.find? o.id with
        | none => exact .inl (h.sharesOf_eq_nil (Index.contains_eq_false_iff.2 hfind))
        | some o' =>
          obtain ⟨-, hnil | hval⟩ := hrow o' hfind
          · exact .inl hnil
          · have hid : o'.id = o.id := Index.key_of_find? hfind
            rcases h.shares_full o' (Index.mem_of_find? hfind) with hnil | hfull
            · exact .inl (by rw [← hid]; exact hnil)
            · right
              rw [hid] at hfull
              exact ⟨hfull.fractions, by rw [← hval]; exact hfull.amounts⟩
      · exact h.shares_full o ho }

/-- An expense without shares can be taken out. -/
theorem eraseExpense (h : t.Consistent) {id : Int} (hnone : t.sharesOf id = []) :
    Consistent { t with expenses := t.expenses.erase id } :=
  { h with
    expense_group := fun e he => h.expense_group e ((Index.mem_erase _ _ _).1 he).1
    expense_payer := fun e he => h.expense_payer e ((Index.mem_erase _ _ _).1 he).1
    expense_amount := fun e he => h.expense_amount e ((Index.mem_erase _ _ _).1 he).1
    share_expense := by
      intro s hs
      obtain ⟨e, he, hfit, hm⟩ := h.share_expense s hs
      have hne : id ≠ s.expenseId := (ne_of_sharesOf_eq_nil hnone hs).symm
      exact ⟨e, by rw [Index.find?_erase, if_neg hne]; exact he, hfit, hm⟩
    shares_full := fun e he => h.shares_full e ((Index.mem_erase _ _ _).1 he).1 }

/-! ## Whole groups -/

theorem dropGroup_of (h : t.Consistent) (g : Int) : (dropGroup t g).Consistent where
  email_unique := h.email_unique
  member_group := by
    intro m hm
    obtain ⟨hm, hne⟩ := (Index.mem_filter _ _ _).1 hm
    exact contains_dropGroup (h.member_group m hm) (by simpa using hne)
  member_user m hm := h.member_user m ((Index.mem_filter _ _ _).1 hm).1
  link_unique m hm o ho :=
    h.link_unique m ((Index.mem_filter _ _ _).1 hm).1 o ((Index.mem_filter _ _ _).1 ho).1
  expense_group := by
    intro e he
    obtain ⟨he, hne⟩ := (Index.mem_filter _ _ _).1 he
    exact contains_dropGroup (h.expense_group e he) (by simpa using hne)
  expense_payer := by
    intro e he
    obtain ⟨he, hne⟩ := (Index.mem_filter _ _ _).1 he
    exact hasMember_dropGroup (h.expense_payer e he) (by simpa using hne)
  expense_amount e he := h.expense_amount e ((Index.mem_filter _ _ _).1 he).1
  share_expense := by
    intro s hs
    obtain ⟨hs, hout⟩ := mem_shares_dropGroup.1 hs
    obtain ⟨e, he, hfit, hm⟩ := h.share_expense s hs
    -- a share that is left belongs to an expense that is left
    have hne : e.groupId ≠ g := fun hg =>
      hout e (Index.mem_of_find? he) hg (Index.key_of_find? he)
    refine ⟨e, ?_, hfit, fun m hm' => hasMember_dropGroup (hm m hm') hne⟩
    simp [dropGroup, Index.find?_filter, he, hne]
  shares_full := by
    intro e he
    obtain ⟨he, hne⟩ := (Index.mem_filter _ _ _).1 he
    have heq : (dropGroup t g).sharesOf e.id = t.sharesOf e.id := by
      refine Index.filter_eq_of_ascending (t.shares.ascending.filter _) fun s => ?_
      rw [mem_shares_dropGroup, mem_sharesOf, beq_iff_eq]
      constructor
      · rintro ⟨⟨hs, -⟩, hid⟩
        exact ⟨hs, hid⟩
      · rintro ⟨hs, hid⟩
        refine ⟨⟨hs, fun o ho hg hkey => ?_⟩, hid⟩
        have : o = e := t.expenses.eq_of_key_eq ho he (hkey.trans hid)
        subst this
        simp [hg] at hne
    rw [heq]
    exact h.shares_full e he

end Consistent

end Tables

end SharedLedger
