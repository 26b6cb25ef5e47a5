import SharedLedger.Proofs.Neighbours

/-!
# Listings

What a user is told about the own groups: the groups, the expenses the user paid
in them, the shares the user owes in them, and the balances. The listings walk
from the user's memberships to the expenses of their groups and on to the
shares. That nothing is missing at the end, nothing is listed twice and nothing
is another's (`Tables.Consistent.listed`) rests on the invariant of the tables:
a user is linked to one member of a group at most, and members pay and owe in
their own group only.

So the answers come from the rows of the user's groups alone
(`Tables.SameFor.overview_eq`). Two ledgers with the same rows there give the
user the same answers, whatever else they keep (`System.overview_of_own_groups`).
-/

namespace SharedLedger

namespace Tables

variable {t t' : Tables} {u : ℤ}

/-! ## What comes out of the tables -/

/-- The groups of a user's memberships. -/
def groupsFor (t : Tables) (userId : Int) : List Group :=
  (t.membershipsOf userId).filterMap fun m => t.groups.find? m.groupId

/-- The expenses that a user's members paid in their groups. -/
def paidFor (t : Tables) (userId : Int) : List Expense :=
  (t.membershipsOf userId).flatMap fun m =>
    (t.expensesOf m.groupId).filter fun e => e.paidBy == m.id

/-- The shares that a member owes of some expenses. -/
def sharesOwed (t : Tables) (memberId : Int) (es : List Expense) : List Share :=
  es.flatMap fun e => (t.sharesOf e.id).filter fun s => s.owedBy == some memberId

/-- The shares that a user's members owe in their groups. -/
def owedBy (t : Tables) (userId : Int) : List Share :=
  (t.membershipsOf userId).flatMap fun m => t.sharesOwed m.id (t.expensesOf m.groupId)

theorem mem_groupsFor {g : Group} :
    g ∈ t.groupsFor u ↔
      g ∈ t.groups.toList ∧ ∃ m ∈ t.members.toList, m.userId = some u ∧ m.groupId = g.id := by
  simp only [groupsFor, List.mem_filterMap, mem_membershipsOf, Index.find?_eq_some_iff]
  constructor
  · rintro ⟨m, ⟨hm, hu⟩, hg, hid⟩
    exact ⟨hg, m, hm, hu, hid.symm⟩
  · rintro ⟨hg, m, hm, hu, hid⟩
    exact ⟨m, ⟨hm, hu⟩, hg, hid.symm⟩

theorem mem_paidFor {e : Expense} :
    e ∈ t.paidFor u ↔
      e ∈ t.expenses.toList ∧
        ∃ m ∈ t.members.toList, m.userId = some u ∧ m.groupId = e.groupId ∧ m.id = e.paidBy := by
  simp only [paidFor, List.mem_flatMap, List.mem_filter, mem_membershipsOf, mem_expensesOf,
    beq_iff_eq]
  constructor
  · rintro ⟨m, ⟨hm, hu⟩, ⟨he, hg⟩, hid⟩
    exact ⟨he, m, hm, hu, hg.symm, hid.symm⟩
  · rintro ⟨he, m, hm, hu, hg, hid⟩
    exact ⟨m, ⟨hm, hu⟩, ⟨he, hg.symm⟩, hid.symm⟩

theorem mem_owedBy {s : Share} :
    s ∈ t.owedBy u ↔
      s ∈ t.shares.toList ∧ ∃ m ∈ t.members.toList, m.userId = some u ∧ s.owedBy = some m.id ∧
        ∃ e ∈ t.expenses.toList, e.id = s.expenseId ∧ e.groupId = m.groupId := by
  simp only [owedBy, sharesOwed, List.mem_flatMap, List.mem_filter, mem_membershipsOf,
    mem_expensesOf, mem_sharesOf, beq_iff_eq]
  constructor
  · rintro ⟨m, ⟨hm, hu⟩, e, ⟨he, hg⟩, ⟨hs, hid⟩, howed⟩
    exact ⟨hs, m, hm, hu, howed, e, he, hid.symm, hg⟩
  · rintro ⟨hs, m, hm, hu, howed, e, he, hid, hg⟩
    exact ⟨m, ⟨hm, hu⟩, e, ⟨he, hg⟩, ⟨hs, hid.symm⟩, howed⟩

/-- Each member lists its own expenses. -/
theorem nodup_paidFor (t : Tables) (u : ℤ) : (t.paidFor u).Nodup := by
  refine List.nodup_flatMap.2 ⟨fun m _ => (t.expenses.nodup.filter _).filter _, ?_⟩
  refine List.Pairwise.imp_of_mem (fun hm ho hne e he he' => hne ?_) (t.members.nodup.filter _)
  have hm := (mem_membershipsOf.1 hm).1
  have ho := (mem_membershipsOf.1 ho).1
  simp only [List.mem_filter, beq_iff_eq] at he he'
  exact t.members.eq_of_key_eq hm ho (he.2.symm.trans he'.2)

/-- Each member lists its own shares, expense by expense. -/
theorem nodup_owedBy (t : Tables) (u : ℤ) : (t.owedBy u).Nodup := by
  refine List.nodup_flatMap.2 ⟨fun m _ => List.nodup_flatMap.2
    ⟨fun e _ => (t.shares.nodup.filter _).filter _, ?_⟩, ?_⟩
  · refine List.Pairwise.imp_of_mem (fun he ho hne s hs hs' => hne ?_) (t.expenses.nodup.filter _)
    have he := (mem_expensesOf.1 he).1
    have ho := (mem_expensesOf.1 ho).1
    simp only [List.mem_filter, mem_sharesOf] at hs hs'
    exact t.expenses.eq_of_key_eq he ho (hs.1.2.symm.trans hs'.1.2)
  · refine List.Pairwise.imp_of_mem (fun hm ho hne s hs hs' => hne ?_) (t.members.nodup.filter _)
    have hm := (mem_membershipsOf.1 hm).1
    have ho := (mem_membershipsOf.1 ho).1
    simp only [sharesOwed, List.mem_flatMap, List.mem_filter, beq_iff_eq] at hs hs'
    obtain ⟨_, _, _, hs⟩ := hs
    obtain ⟨_, _, _, hs'⟩ := hs'
    exact t.members.eq_of_key_eq hm ho (Option.some.inj (hs.symm.trans hs'))

/-- **All of a user's things, each once**: the groups with a member linked to the
user, all expenses that were paid by a member linked to the user, and all shares
that are owed by one. -/
structure Listed (t : Tables) (userId : Int) (gs : List Group) (es : List Expense)
    (ss : List Share) : Prop where
  groups_once : (gs.map (·.id)).Nodup
  groups : ∀ g, g ∈ gs ↔
    g ∈ t.groups.toList ∧ ∃ m ∈ t.members.toList, m.userId = some userId ∧ m.groupId = g.id
  expenses_once : (es.map (·.id)).Nodup
  expenses : ∀ e, e ∈ es ↔ e ∈ t.expenses.toList ∧ t.linkedUser? e.paidBy = some userId
  shares_once : (ss.map (·.id)).Nodup
  shares : ∀ s, s ∈ ss ↔
    s ∈ t.shares.toList ∧ ∃ m, s.owedBy = some m ∧ t.linkedUser? m = some userId

theorem linkedUser?_eq_some_iff {id : ℤ} :
    t.linkedUser? id = some u ↔ ∃ m ∈ t.members.toList, m.userId = some u ∧ m.id = id := by
  simp only [linkedUser?, Option.bind_eq_some_iff, Index.find?_eq_some_iff]
  constructor
  · rintro ⟨m, ⟨hm, hid⟩, hu⟩
    exact ⟨m, hm, hu, hid⟩
  · rintro ⟨m, hm, hu, hid⟩
    exact ⟨m, ⟨hm, hid⟩, hu⟩

/-- A user's memberships are in different groups. -/
theorem Consistent.nodup_groupsFor (h : t.Consistent) (u : ℤ) : (t.groupsFor u).Nodup := by
  have hgroups : t.groupsFor u =
      ((t.membershipsOf u).map (·.groupId)).filterMap t.groups.find? := by
    rw [List.filterMap_map]
    rfl
  rw [hgroups]
  refine List.Nodup.filterMap (fun j k g hj hk => ?_) (h.nodup_memberships u)
  exact (Index.key_of_find? hj).symm.trans (Index.key_of_find? hk)

/-- **The listings are complete**, in consistent tables. -/
theorem Consistent.listed (h : t.Consistent) (u : ℤ) :
    t.Listed u (t.groupsFor u) (t.paidFor u) (t.owedBy u) where
  groups_once := t.groups.nodup_keys_of_nodup (h.nodup_groupsFor u) fun g hg => (mem_groupsFor.1 hg).1
  groups _ := mem_groupsFor
  expenses_once := t.expenses.nodup_keys_of_nodup (t.nodup_paidFor u) fun e he => (mem_paidFor.1 he).1
  -- whoever paid is a member of the group of the expense
  expenses e := by
    rw [mem_paidFor, linkedUser?_eq_some_iff]
    refine and_congr_right fun he => ⟨?_, ?_⟩
    · rintro ⟨m, hm, hu, -, hid⟩
      exact ⟨m, hm, hu, hid⟩
    · rintro ⟨m, hm, hu, hid⟩
      obtain ⟨o, ho, hg⟩ := h.expense_payer e he
      obtain rfl : m = o := t.members.eq_of_key_eq hm (Index.mem_of_find? ho)
        (hid.trans (Index.key_of_find? ho).symm)
      exact ⟨m, hm, hu, hg, hid⟩
  shares_once := t.shares.nodup_keys_of_nodup (t.nodup_owedBy u) fun s hs => (mem_owedBy.1 hs).1
  -- and so is whoever owes a share of it
  shares s := by
    rw [mem_owedBy]
    refine and_congr_right fun hs => ⟨?_, ?_⟩
    · rintro ⟨m, hm, hu, howed, -⟩
      exact ⟨m.id, howed, linkedUser?_eq_some_iff.2 ⟨m, hm, hu, rfl⟩⟩
    · rintro ⟨id, howed, hlinked⟩
      obtain ⟨m, hm, hu, rfl⟩ := linkedUser?_eq_some_iff.1 hlinked
      obtain ⟨e, he, hid, -, howers⟩ := h.expense_of_share hs
      obtain ⟨o, ho, hg⟩ := howers m.id howed
      obtain rfl : m = o := t.members.eq_of_key_eq hm (Index.mem_of_find? ho)
        (Index.key_of_find? ho).symm
      exact ⟨m, hm, hu, howed, e, he, hid, hg.symm⟩

/-! ## Tables with the same rows for a user -/

/-- Two tables have the same rows for a user: the user's memberships, and all
rows of the groups these are in. -/
structure SameFor (t t' : Tables) (userId : Int) : Prop where
  memberships : t'.membershipsOf userId = t.membershipsOf userId
  groups : ∀ m ∈ t.membershipsOf userId, t.SameGroup t' m.groupId

namespace SameFor

theorem groupsFor_eq (h : t.SameFor t' u) : t'.groupsFor u = t.groupsFor u := by
  unfold groupsFor
  rw [h.memberships]
  exact List.filterMap_congr fun m hm => (h.groups m hm).group

theorem paidFor_eq (h : t.SameFor t' u) : t'.paidFor u = t.paidFor u := by
  unfold paidFor
  rw [h.memberships]
  exact List.flatMap_congr fun m hm => by rw [(h.groups m hm).expensesOf]

theorem owedBy_eq (h : t.SameFor t' u) : t'.owedBy u = t.owedBy u := by
  unfold owedBy
  rw [h.memberships]
  refine List.flatMap_congr fun m hm => ?_
  rw [(h.groups m hm).expensesOf]
  exact List.flatMap_congr fun e he => by rw [(h.groups m hm).sharesOf e he]

theorem read_pairsOf_eq (h : t.SameFor t' u) (ht : t.Consistent) {ms : List Member}
    (hms : ms ⊆ t.membershipsOf u) :
    (Statement.pairsOf ms).read t' = (Statement.pairsOf ms).read t := by
  induction ms with
  | nil => rfl
  | cons m ms ih =>
    obtain ⟨hm, hms⟩ := List.cons_subset.1 hms
    simp only [Statement.read_pairsOf_cons, Statement.read_pairs, (h.groups m hm).owedRows_eq ht,
      ih hms]

/-- So the user sees the same balances. -/
theorem viewOf_eq (h : t.SameFor t' u) (ht : t.Consistent) :
    Statement.viewOf t' u = Statement.viewOf t u := by
  unfold Statement.viewOf
  rw [h.memberships, h.read_pairsOf_eq ht (List.Subset.refl _)]

end SameFor

end Tables

/-! ## On the store -/

section Reading

variable (t : Tables) (ms : List Member)

theorem Group.read_groupsOf :
    (groupsOf ms).read t = .ok (ms.filterMap fun m => t.groups.find? m.groupId) := by
  induction ms with
  | nil => rfl
  | cons m ms ih =>
    have hask : (Plan.ask (.findGroup m.groupId)).read t = .ok (t.groups.find? m.groupId) := rfl
    rw [groupsOf, Plan.bind_eq, Plan.read_bind, hask, List.filterMap_cons]
    cases t.groups.find? m.groupId with
    | none => exact ih
    | some g =>
      change ((groupsOf ms).bind fun gs => .done (g :: gs)).read t = _
      rw [Plan.read_bind, ih]
      rfl

namespace Statement

theorem read_paidBy :
    (paidBy ms).read t = .ok (ms.flatMap fun m =>
      (t.expensesOf m.groupId).filter fun e => e.paidBy == m.id) := by
  induction ms with
  | nil => rfl
  | cons m ms ih =>
    change ((paidBy ms).bind fun rest =>
      .done ((t.expensesOf m.groupId).filter (fun e => e.paidBy == m.id) ++ rest)).read t = _
    rw [Plan.read_bind, ih]
    rfl

theorem read_owedIn (memberId : Int) (es : List Expense) :
    (owedIn memberId es).read t = .ok (t.sharesOwed memberId es) := by
  induction es with
  | nil => rfl
  | cons e es ih =>
    change ((owedIn memberId es).bind fun rest =>
      .done ((t.sharesOf e.id).filter (fun s => s.owedBy == some memberId) ++ rest)).read t = _
    rw [Plan.read_bind, ih]
    rfl

theorem read_owedBy :
    (owedBy ms).read t = .ok (ms.flatMap fun m => t.sharesOwed m.id (t.expensesOf m.groupId)) := by
  induction ms with
  | nil => rfl
  | cons m ms ih =>
    change ((owedIn m.id (t.expensesOf m.groupId)).bind fun shares =>
      (owedBy ms).bind fun rest => .done (shares ++ rest)).read t = _
    rw [Plan.read_bind, read_owedIn]
    change ((owedBy ms).bind fun rest =>
      .done (t.sharesOwed m.id (t.expensesOf m.groupId) ++ rest)).read t = _
    rw [Plan.read_bind, ih]
    rfl

end Statement

end Reading

/-- What a user is answered who asks for the own groups, the own expenses, the
own shares and all balances. -/
@[ext]
structure Overview where
  groups : Option (Except Failure (List Group))
  expenses : Option (Except Failure (List Expense))
  shares : Option (Except Failure (List Share))
  balances : Option (Except Failure UserBalances)

/-- The four answers to a user, at a time and on a store. -/
def Service.overview (service : Service) (now : Nat) (client : Client) (s : Store) (userId : Int) :
    Overview where
  groups := ((service.operation now (.listGroups userId)).run client s).2
  expenses := ((service.operation now (.myExpenses userId)).run client s).2
  shares := ((service.operation now (.myShares userId)).run client s).2
  balances := ((service.operation now (.myBalances userId)).run client s).2

/-- **A user who is served is answered what comes out of the tables.** -/
theorem Service.overview_eq (service : Service) (now : Nat) {client : Client} {s : Store}
    (hs : s.Serves client) (u : Int) :
    service.overview now client s u =
      ⟨some (.ok (s.tables.groupsFor u)), some (.ok (s.tables.paidFor u)),
        some (.ok (s.tables.owedBy u)), some (Statement.viewOf s.tables u)⟩ := by
  have hmemberships : ∀ {α : Type} {f : List Member → Plan α}, (∀ ms, (f ms).ReadOnly) →
      ((Operation.single ((Plan.ask (.listMemberships u)).bind f)).run client s).2 =
        some ((f (s.tables.membershipsOf u)).read s.tables) := by
    intro α f hf
    have hbody : ((Plan.ask (.listMemberships u)).bind f).ReadOnly :=
      .bind (Plan.readOnly_ask fun _ _ => ⟨_, rfl⟩) hf
    obtain ⟨s', -, hrun⟩ := Operation.run_single hbody hs
    rw [hrun, Plan.read_bind]
    rfl
  obtain ⟨s', -, hview⟩ := Statement.run_ofUser hs u
  ext1
  · exact (hmemberships Group.readOnly_groupsOf).trans (congrArg some (Group.read_groupsOf _ _))
  · exact (hmemberships Statement.readOnly_paidBy).trans
      (congrArg some (Statement.read_paidBy _ _))
  · exact (hmemberships Statement.readOnly_owedBy).trans
      (congrArg some (Statement.read_owedBy _ _))
  · exact congrArg Prod.snd hview

namespace Sample

/-- The small ledger with a club of Bea's, which Ada is not in. -/
def club : System :=
  (trip.given service 5 client (.createGroup 2 ⟨"Club", some "Bea"⟩)).turns (.replicate 6 5)

theorem reachable_club : System.Reachable service club := reachable_trip.given 5 _ _ |>.turns _

end Sample

namespace System

variable {service : Service} {sys : System} {client : Client}

/-- **What a user is told of the own groups**, in every system that can come
about: all groups, expenses and shares that are the user's, each once, and
nothing else. These answers and the balances are those that the user gets in any
other system that can come about with the same rows in the user's groups,
whatever service runs it and at whatever time. -/
theorem overview_of_own_groups (h : Reachable service sys) (hclient : sys.store.Serves client)
    (now : ℕ) (u : ℤ) :
    ∃ gs es ss v,
      service.overview now client sys.store u =
        ⟨some (.ok gs), some (.ok es), some (.ok ss), some v⟩ ∧
      sys.store.tables.Listed u gs es ss ∧
      ∀ (service' : Service) (sys' : System) (client' : Client) (now' : ℕ),
        sys'.store.Serves client' → sys.store.tables.SameFor sys'.store.tables u →
        service'.overview now' client' sys'.store u = service.overview now client sys.store u := by
  have hcons : sys.store.tables.Consistent := h.sound.consistent
  refine ⟨_, _, _, _, service.overview_eq now hclient u, hcons.listed u, ?_⟩
  intro service' sys' client' now' hclient' hsame
  rw [service.overview_eq now hclient, service'.overview_eq now' hclient', hsame.groupsFor_eq,
    hsame.paidFor_eq, hsame.owedBy_eq, hsame.viewOf_eq hcons]

/-- Ada is told the same whether or not Bea has a club, and Bea is told of both. -/
theorem overview_of_own_groups_club :
    Sample.trip.store.tables.SameFor Sample.club.store.tables 1 ∧
    Sample.service.overview 7 Sample.client Sample.club.store 1 =
      Sample.service.overview 0 Sample.client Sample.trip.store 1 ∧
    (∃ gs es ss v, Sample.service.overview 0 Sample.client Sample.club.store 2 =
        ⟨some (.ok gs), some (.ok es), some (.ok ss), some v⟩ ∧
      Sample.club.store.tables.Listed 2 gs es ss ∧ gs.map (·.id) = [3, 9]) := by
  have hsame : Sample.trip.store.tables.SameFor Sample.club.store.tables 1 := by
    refine ⟨by decide +kernel, fun m hm => ?_⟩
    have hgroup : m.groupId = 3 := by revert m; decide +kernel
    rw [hgroup]
    exact ⟨by decide +kernel, by decide +kernel, by decide +kernel, by decide +kernel⟩
  have hserves : Sample.club.store.Serves Sample.client := ⟨rfl, nofun⟩
  obtain ⟨-, -, -, -, -, -, hagree⟩ :=
    overview_of_own_groups Sample.reachable_trip (Sample.serves_client _) 0 1
  obtain ⟨gs, es, ss, v, hanswers, hlisted, -⟩ :=
    overview_of_own_groups Sample.reachable_club hserves 0 2
  refine ⟨hsame, hagree _ _ _ 7 hserves hsame, gs, es, ss, v, hanswers,
    hlisted, ?_⟩
  have hgroups : (Sample.service.overview 0 Sample.client Sample.club.store 2).groups =
      some (.ok (Sample.club.store.tables.groupsFor 2)) := by
    rw [Service.overview_eq _ _ hserves]
  rw [hanswers] at hgroups
  rw [Except.ok.inj (Option.some.inj hgroups)]
  decide +kernel

end System

end SharedLedger
