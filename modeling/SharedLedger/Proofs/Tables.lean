import SharedLedger.Proofs.Index
import SharedLedger.Store.Call

/-!
# Journals on tables

When a mutation is respected and what it leaves behind, table by table, and
what a whole journal makes of tables. `replay_eq_ok_iff` lemmas for the
journals that delete rows say that they take out exactly the rows named in
them, on whatever tables they are replayed.
-/

namespace SharedLedger

namespace Tables

variable {t t' : Tables}

/-! ## One mutation -/

theorem apply_eq_ok_iff {m : Mutation} :
    t.apply m = .ok t' ↔ t.check m = .ok () ∧ t' = t.enact m := by
  unfold apply
  cases t.check m with
  | error e => simp [bind, Except.bind]
  | ok u => simp [bind, Except.bind, pure, Except.pure, eq_comm]

theorem require_eq_ok_iff {table : Table} {id : Int} :
    t.require table id = .ok () ↔ t.contains table id = true := by
  unfold require
  split
  · next h => exact ⟨fun _ => h, fun _ => rfl⟩
  · next h => exact ⟨fun he => (by cases he), fun hc => absurd hc h⟩

/-- An account goes in if no other one has its address. -/
theorem check_put_user {u : User} :
    t.check (.put (.user u)) = .ok () ↔
      ∀ v ∈ t.users.toList, v.email = u.email → v.id = u.id := by
  simp only [check]
  split
  · next h =>
    obtain ⟨v, hv, hne⟩ := List.any_eq_true.1 h
    simp only [Bool.and_eq_true, bne_iff_ne, beq_iff_eq] at hne
    exact ⟨fun he => (by cases he), fun hall => absurd (hall v hv hne.2) hne.1⟩
  · next h =>
    refine ⟨fun _ v hv he => ?_, fun _ => rfl⟩
    by_contra hne
    exact h (List.any_eq_true.2 ⟨v, hv, by simp [hne, he]⟩)

/-- A member goes in if its group exists, and the account it is linked to
exists and is linked to no other member of the group. -/
theorem check_put_member {m : Member} :
    t.check (.put (.member m)) = .ok () ↔
      t.groups.contains m.groupId = true ∧ ∀ u, m.userId = some u →
        t.users.contains u = true ∧
          ∀ o ∈ t.members.toList, o.groupId = m.groupId → o.userId = some u → o.id = m.id := by
  simp only [check]
  by_cases hg : t.contains .groups m.groupId = true
  swap
  · have hr : t.require .groups m.groupId = .error (.notFound .groups m.groupId) := if_neg hg
    rw [hr]
    exact ⟨fun he => (by cases he), fun h => absurd h.1 hg⟩
  rw [require_eq_ok_iff.2 hg]
  cases hu : m.userId with
  | none => exact ⟨fun _ => ⟨hg, fun u he => (by cases he)⟩, fun _ => rfl⟩
  | some u =>
    by_cases hc : t.contains .users u = true
    swap
    · have hr : t.require .users u = .error (.notFound .users u) := if_neg hc
      simp only [bind, Except.bind, hr]
      exact ⟨fun he => (by cases he), fun h => absurd (h.2 u rfl).1 hc⟩
    simp only [bind, Except.bind, require_eq_ok_iff.2 hc]
    split
    · next h =>
      obtain ⟨o, ho, hne⟩ := List.any_eq_true.1 h
      simp only [Bool.and_eq_true, bne_iff_ne, beq_iff_eq, Member.isLinkedTo] at hne
      exact ⟨fun he => (by cases he), fun hall =>
        absurd ((hall.2 u rfl).2 o ho hne.1.2 hne.2) hne.1.1⟩
    · next h =>
      refine ⟨fun _ => ⟨hg, fun v hv => ?_⟩, fun _ => rfl⟩
      cases hv
      refine ⟨hc, fun o ho hog hou => ?_⟩
      by_contra hne
      exact h (List.any_eq_true.2 ⟨o, ho, by simp [Member.isLinkedTo, hne, hog, hou]⟩)

theorem check_put_expense {e : Expense} :
    t.check (.put (.expense e)) = .ok () ↔
      t.groups.contains e.groupId = true ∧ t.members.contains e.paidBy = true := by
  simp only [check]
  by_cases hg : t.contains .groups e.groupId = true
  · rw [require_eq_ok_iff.2 hg]
    exact ⟨fun h => ⟨hg, require_eq_ok_iff.1 h⟩, fun h => require_eq_ok_iff.2 h.2⟩
  · have hr : t.require .groups e.groupId = .error (.notFound .groups e.groupId) := if_neg hg
    rw [hr]
    exact ⟨fun he => (by cases he), fun h => absurd h.1 hg⟩

/-- A member goes out if nothing was paid by it. -/
theorem check_delete_member {id : Int} :
    t.check (.delete .members id) = .ok () ↔ ∀ e ∈ t.expenses.toList, e.paidBy ≠ id := by
  simp only [check]
  split
  · next h =>
    obtain ⟨e, he, hp⟩ := List.any_eq_true.1 h
    exact ⟨fun h => (by cases h), fun hall => absurd (by simpa using hp) (hall e he)⟩
  · next h =>
    refine ⟨fun _ e he hp => ?_, fun _ => rfl⟩
    exact h (List.any_eq_true.2 ⟨e, he, by simpa using hp⟩)

/-! ## Journals -/

@[simp] theorem replay_nil : t.replay [] = .ok t := rfl

theorem replay_cons {m : Mutation} {ms : List Mutation} :
    t.replay (m :: ms) = .ok t' ↔ t.check m = .ok () ∧ (t.enact m).replay ms = .ok t' := by
  unfold replay
  rw [List.foldlM_cons]
  cases h : t.apply m with
  | error e =>
    have hn : t.check m ≠ .ok () := fun hc => by
      have hok : t.apply m = .ok (t.enact m) := apply_eq_ok_iff.2 ⟨hc, rfl⟩
      rw [hok] at h
      cases h
    exact ⟨fun he => (by cases he), fun he => absurd he.1 hn⟩
  | ok t₁ =>
    obtain ⟨hc, rfl⟩ := apply_eq_ok_iff.1 h
    exact ⟨fun he => ⟨hc, he⟩, And.right⟩

theorem replay_append {js ks : List Mutation} :
    t.replay (js ++ ks) = .ok t' ↔ ∃ t₁, t.replay js = .ok t₁ ∧ t₁.replay ks = .ok t' := by
  induction js generalizing t with
  | nil => simp
  | cons m js ih =>
    simp only [List.cons_append, replay_cons, ih]
    constructor
    · rintro ⟨hc, t₁, h₁, h₂⟩
      exact ⟨t₁, ⟨hc, h₁⟩, h₂⟩
    · rintro ⟨t₁, ⟨hc, h₁⟩, h₂⟩
      exact ⟨hc, t₁, h₁, h₂⟩

theorem replay_singleton {m : Mutation} :
    t.replay [m] = .ok t' ↔ t.check m = .ok () ∧ t' = t.enact m := by
  rw [replay_cons, replay_nil, Except.ok.injEq, eq_comm (a := t')]

/-! ## Journals of deletions -/

/-- The tables without the shares that a test picks out. -/
def dropShares (t : Tables) (p : Share → Bool) : Tables :=
  { t with shares := t.shares.filter fun s => !p s }

/-- The tables without the members that a test picks out. -/
def dropMembers (t : Tables) (p : Member → Bool) : Tables :=
  { t with members := t.members.filter fun m => !p m }

/-- Journals that delete shares are never refused, and delete those shares. -/
theorem replay_delete_shares (ss : List Share) :
    t.replay (ss.map fun s => .delete .shares s.id) =
      .ok (t.dropShares fun s => ss.any fun r => r.id == s.id) := by
  induction ss generalizing t with
  | nil =>
    rw [List.map_nil, replay_nil]
    congr 1
    simp [dropShares, Index.filter]
  | cons r ss ih =>
    rw [List.map_cons, replay_cons, ih]
    refine ⟨rfl, ?_⟩
    congr 1
    simp only [dropShares, enact]
    congr 1
    refine Index.ext_mem fun s => ?_
    simp only [Index.mem_filter, Index.mem_erase, List.any_cons, Bool.not_or, Bool.and_eq_true,
      Bool.not_eq_true', beq_eq_false_iff_ne]
    tauto

/-- Journals that delete members are refused where one of them paid for
something, and delete those members otherwise. -/
theorem replay_delete_members_iff {ms : List Member} :
    t.replay (ms.map fun m => .delete .members m.id) = .ok t' ↔
      (∀ m ∈ ms, ∀ e ∈ t.expenses.toList, e.paidBy ≠ m.id) ∧
        t' = t.dropMembers fun m => ms.any fun r => r.id == m.id := by
  induction ms generalizing t with
  | nil =>
    rw [List.map_nil, replay_nil, Except.ok.injEq]
    have h : t = t.dropMembers fun m => ([] : List Member).any fun r => r.id == m.id := by
      simp [dropMembers, Index.filter]
    rw [← h]
    simp [eq_comm]
  | cons r ms ih =>
    rw [List.map_cons, replay_cons, ih, check_delete_member]
    have h : (t.enact (.delete .members r.id)).dropMembers (fun m => ms.any fun o => o.id == m.id) =
        t.dropMembers fun m => (r :: ms).any fun o => o.id == m.id := by
      simp only [dropMembers, enact]
      congr 1
      refine Index.ext_mem fun m => ?_
      simp only [Index.mem_filter, Index.mem_erase, List.any_cons, Bool.not_or, Bool.and_eq_true,
        Bool.not_eq_true', beq_eq_false_iff_ne]
      tauto
    rw [h, List.forall_mem_cons]
    tauto

/-- The tables without the given expenses and, for each, the given shares. -/
def dropExpenses (t : Tables) (es : List Expense) (f : Expense → List Share) : Tables :=
  { t with
    expenses := t.expenses.filter fun e => !es.any fun r => r.id == e.id
    shares := t.shares.filter fun s => !es.any fun e => (f e).any fun r => r.id == s.id }

/-- Journals that delete expenses and their shares are never refused. -/
theorem replay_delete_expenses (es : List Expense) (f : Expense → List Share) :
    t.replay (es.flatMap fun e =>
        ((f e).map fun s => .delete .shares s.id) ++ [.delete .expenses e.id]) =
      .ok (t.dropExpenses es f) := by
  induction es generalizing t with
  | nil =>
    rw [List.flatMap_nil, replay_nil]
    congr 1
    simp [dropExpenses, Index.filter]
  | cons r es ih =>
    rw [List.flatMap_cons, replay_append]
    refine ⟨_, replay_append.2 ⟨_, replay_delete_shares (f r), replay_singleton.2 ⟨rfl, rfl⟩⟩, ?_⟩
    rw [ih]
    congr 1
    simp only [dropExpenses, dropShares, enact, Tables.mk.injEq, true_and]
    constructor
    · refine Index.ext_mem fun e => ?_
      simp only [Index.mem_filter, Index.mem_erase, List.any_cons, Bool.not_or, Bool.and_eq_true,
        Bool.not_eq_true', beq_eq_false_iff_ne]
      tauto
    · refine Index.ext_mem fun s => ?_
      simp only [Index.mem_filter, List.any_cons, Bool.not_or, Bool.and_eq_true]
      tauto

end Tables

end SharedLedger
