import SharedLedger.Proofs.Cascades
import SharedLedger.Proofs.Links

/-!
# Unlinking members

Taking the account off a member changes nothing but that member's row. A user is
linked to one member of a group at most, so the user is then linked to none, and
the pairs of this user drop out of the balances of the group while all others
stay. The history of the group is kept by the member: where the account is put
back, the balances are those of before (`System.unlinking_comesTo`). Deleting an
account does the same in all groups at once.
-/

namespace SharedLedger

open Tables Plan

namespace Tables

variable {t t' : Tables} {g u : ℤ} {m m' : Member}

/-- The row of one member is another one, and all else is what it was. -/
structure MemberIs (t t' : Tables) (m : Member) : Prop where
  members_eq : t'.members.toList = t.members.toList.map fun o => if o.id = m.id then m else o
  users_eq : t'.users = t.users
  groups_eq : t'.groups = t.groups
  expenses_eq : t'.expenses = t.expenses
  shares_eq : t'.shares = t.shares

/-- The tables with another row for a member. -/
def setMember (t : Tables) (m : Member) : Tables := t.enact (.put (.member m))

theorem memberIs_setMember (h : t.members.find? m.id = some m') : t.MemberIs (t.setMember m) m where
  members_eq := by
    change (t.members.put m).toList = _
    rw [Index.put_eq_map h, Index.toList_map]
  users_eq := rfl
  groups_eq := rfl
  expenses_eq := rfl
  shares_eq := rfl

theorem linkedUser?_setMember (t : Tables) (m : Member) (id : ℤ) :
    (t.setMember m).linkedUser? id = if m.id = id then m.userId else t.linkedUser? id := by
  change ((t.members.put m).find? id).bind _ = _
  rw [Index.find?_put]
  split <;> rfl

/-- A member keeps its group. -/
theorem hasMember_setMember (h : t.members.find? m.id = some m') (hg : m'.groupId = m.groupId)
    (id : ℤ) : (t.setMember m).HasMember g id ↔ t.HasMember g id := by
  unfold HasMember
  change (∃ o, (t.members.put m).find? id = some o ∧ _) ↔ _
  rw [Index.find?_put]
  split
  · next hid => simp [← hid, h, hg]
  · rfl

theorem setMember_setMember (t : Tables) (hid : m'.id = m.id) :
    (t.setMember m).setMember m' = t.setMember m' := by
  have hput : (t.members.put m).put m' = t.members.put m' := by
    refine Index.ext_find? fun k => ?_
    rw [Index.find?_put, Index.find?_put, Index.find?_put, hid]
    split <;> rfl
  change ({ t with members := (t.members.put m).put m' } : Tables) = _
  rw [hput]
  rfl

theorem Consistent.unlinked (ht : t.Consistent) (hm : m ∈ t.members.toList) :
    (t.setMember m.unlinked).Consistent := by
  refine ht.putMember (fun o ho => ?_) (check_put_member.2 ⟨ht.member_group m hm, nofun⟩)
  obtain rfl : o = m := t.members.eq_of_key_eq (Index.mem_of_find? ho) hm (Index.key_of_find? ho)
  rfl

/-- A member who keeps group and account keeps the tables consistent. -/
theorem Consistent.relinked (ht : t.Consistent) (hm : m ∈ t.members.toList) (hid : m'.id = m.id)
    (hg : m'.groupId = m.groupId) (hu : m'.userId = m.userId) : (t.setMember m').Consistent := by
  refine ht.putMember (fun o ho => ?_) (check_put_member.2 ⟨hg ▸ ht.member_group m hm, ?_⟩)
  · rw [hid] at ho
    exact (congrArg Member.groupId (t.members.eq_of_key_eq (Index.mem_of_find? ho) hm
      (Index.key_of_find? ho))).trans hg.symm
  · intro v hv
    rw [hu] at hv
    refine ⟨ht.member_user m hm v hv, fun o ho hog hov => ?_⟩
    rw [hid, ht.link_unique o ho m hm (hog.trans hg) v hov hv]

/-! ## What is owed then -/

/-- **Without its member a user is not linked in a group.** -/
theorem restricts_unlinked (ht : t.Consistent) (hm : m ∈ t.members.toList)
    (hu : m.userId = some u) :
    t.Restricts (t.setMember m.unlinked) m.groupId fun v => v ≠ u where
  expensesOf := rfl
  sharesOf _ _ := rfl
  hasMember :=
    have hfind : t.members.find? m.id = some m := Index.find?_of_mem hm
    hasMember_setMember (m := m.unlinked) hfind rfl
  linkedUser? id hid := by
    obtain ⟨o, hfind, hg⟩ := hid
    have ho := Index.mem_of_find? hfind
    have hoid : o.id = id := Index.key_of_find? hfind
    rw [linkedUser?_setMember, linkedUser?_of_find hfind]
    split
    · next hid =>
      obtain rfl : m = o := t.members.eq_of_key_eq hm ho (hid.trans hoid.symm)
      simp [hu, Member.unlinked, Option.filter]
    · next hne =>
      cases hv : o.userId with
      | none => rfl
      | some v =>
        -- no other member of the group is linked to the user
        have hvu : v ≠ u := by
          rintro rfl
          exact hne ((congrArg Member.id (ht.link_unique m hm o ho hg.symm v hu hv)).trans hoid)
        simp [Option.filter, hvu]

/-- Nothing is missing once the member is linked to the user again. -/
theorem restricts_relinked (hm : m ∈ t.members.toList) (hid : m'.id = m.id)
    (hg : m'.groupId = m.groupId) (hu : m'.userId = m.userId) :
    t.Restricts (t.setMember m') g fun _ => true where
  expensesOf := rfl
  sharesOf _ _ := rfl
  hasMember := hasMember_setMember (hid ▸ Index.find?_of_mem hm) hg.symm
  linkedUser? id _ := by
    have hkept : (if m'.id = id then m'.userId else t.linkedUser? id) = t.linkedUser? id := by
      split
      · next hk => rw [← hk, hid, linkedUser?_of_find (Index.find?_of_mem hm), hu]
      · rfl
    rw [linkedUser?_setMember, hkept]
    cases t.linkedUser? id <;> rfl

theorem find?_members_dropUser (t : Tables) (u id : ℤ) :
    (dropUser t u).members.find? id =
      (t.members.find? id).map fun m => if m.isLinkedTo u then m.unlinked else m :=
  t.members.find?_map _ (fun m => by split <;> rfl) id

/-- Without an account nobody is linked to it. -/
theorem restricts_dropUser (t : Tables) (g u : ℤ) :
    t.Restricts (dropUser t u) g fun v => v ≠ u where
  expensesOf := rfl
  sharesOf _ _ := rfl
  hasMember id := by
    refine ⟨fun ⟨m, hfind, hg⟩ => ?_, hasMember_dropUser⟩
    obtain ⟨o, ho, rfl⟩ := Option.map_eq_some_iff.1 ((t.find?_members_dropUser u id).symm.trans hfind)
    refine ⟨o, ho, hg ▸ ?_⟩
    split <;> rfl
  linkedUser? id _ := by
    unfold Tables.linkedUser?
    rw [find?_members_dropUser]
    cases t.members.find? id with
    | none => rfl
    | some m =>
      cases hv : m.userId with
      | none => simp [Member.isLinkedTo, hv, Option.filter]
      | some v =>
        by_cases hvu : v = u <;>
          simp [Member.isLinkedTo, Member.unlinked, hv, hvu, Option.filter]

end Tables

/-! ## On the store -/

/-- The balances of a group on a store: they come out of its tables, and everyone
who is linked in the group gets them who asks for them and is served. -/
structure Store.Shows (s : Store) (groupId : Int) (b : GroupBalances) : Prop where
  calculated : Statement.balancesOf s.tables groupId = .ok b
  answered : ∀ client caller, s.Serves client →
    (∃ m ∈ s.tables.membersOf groupId, m.userId = some caller) →
    ∃ s', ((Action.groupBalances groupId).on caller).run client s = (s', some (.ok b))

theorem Store.shows_of_balancesOf {s : Store} {g : ℤ} {b : GroupBalances}
    (h : s.tables.Consistent) (hb : Statement.balancesOf s.tables g = .ok b) : s.Shows g b where
  calculated := hb
  answered client caller hs hlinked := by
    obtain ⟨s', -, hrun⟩ := Action.run_groupBalances h hlinked hs
    exact ⟨s', hb ▸ hrun⟩

/-- A member that is looked up is found. -/
theorem Plan.locksOn_member_bind {α : Type} {t : Tables} {id : Int} {m : Member}
    {f : Member → Plan α} {K : RowKey → Prop} (h : t.members.find? id = some m)
    (hf : (f m).LocksOn K t) : ((Plan.member id).bind f).LocksOn K t := by
  refine .call fun _ ms r t' he hr => ?_
  cases he
  cases hr
  change ((Plan.orRefuse (.notFound .members id) (t.members.find? id)).bind f).LocksOn K t
  rw [h]
  exact hf

/-- A member's row is written under the lock of the group that the member is in. -/
theorem Group.locksOn_rewriting {t : Tables} {id : Int} {m : Member}
    (h : t.members.find? id = some m) (f : Member → Member) :
    (rewriting id f).LocksOn (· = ⟨.groups, m.groupId⟩) t := by
  have hassoc : rewriting id f = (Plan.member id).bind fun m =>
      (Plan.hold .groups m.groupId).bind fun _ => (Plan.member id).bind fun m =>
        ask (.updateMember (f m)) := by
    simp only [rewriting, lockedMember, bind_eq, bind_assoc]
  rw [hassoc]
  have hrest : ((Plan.member id).bind fun m => ask (.updateMember (f m))).Unlocked :=
    (readOnly_member id).unlocked.bind fun _ => unlocked_ask _
  exact locksOn_member_bind h (.lock rfl (hrest.locksOnly.locksOn t))

section Steps

variable {s : Store} {client : Client} {caller u : ℤ} {m : Member} {t : Tables}

/-- **The account is taken off a member.** -/
theorem Action.unlinkMember_comesTo (hcons : s.tables.Consistent) (hready : s.Ready client)
    (hm : m ∈ s.tables.members.toList)
    (hlinked : ∃ o ∈ s.tables.membersOf m.groupId, o.userId = some caller) :
    ((Action.unlinkMember m.id).on caller).ComesTo client s ⟨.groups, m.groupId⟩ fun s₁ r =>
      r = .ok m.unlinked ∧ s₁.tables = s.tables.setMember m.unlinked ∧
        s₁.Ready client ∧ s₁.lockQueue = s.lockQueue := by
  have hfind : s.tables.members.find? m.id = some m := Index.find?_of_mem hm
  refine Action.comesTo_of_locksOn (a := .unlinkMember m.id) rfl rfl
    (Group.locksOn_rewriting hfind _) hready (Access.permit_member hfind hlinked) fun s₁ hl => ?_
  have hg := hcons.member_group m hm
  have hcheck : s.tables.check (.put (.member m.unlinked)) = .ok () :=
    check_put_member.2 ⟨hg, nofun⟩
  obtain ⟨htables, hr⟩ := hl.of_alone ((Group.alone_rewriting (g := Member.unlinked)
    fun _ => rfl).2 ⟨m, hfind, hg, hcheck, rfl⟩)
  exact ⟨hr, htables, hl.ready, hl.lockQueue_eq⟩

/-- **And put back**, with another name or the same: it is still nobody else's in
the group. -/
theorem Action.linkMember_comesTo (ht : t.Consistent) (hready : s.Ready client)
    (hm : m ∈ t.members.toList) (hu : m.userId = some u)
    (hs : s.tables = t.setMember m.unlinked)
    (hlinked : ∃ o ∈ s.tables.membersOf m.groupId, o.userId = some caller) {name : Option String}
    (hname : Naming.validateName? "name" name = .ok ()) :
    ((Action.updateMember m.id ⟨name, some u⟩).on caller).ComesTo client s ⟨.groups, m.groupId⟩
      fun s₂ r => r = .ok { m with name := name.getD m.name } ∧
        s₂.tables = t.setMember { m with name := name.getD m.name } := by
  let m₂ : Member := { m with name := name.getD m.name }
  have hfind : s.tables.members.find? m.id = some m.unlinked := by
    rw [hs]
    exact (t.members.find?_put_self m.unlinked)
  have hbody : (Action.updateMember m.id ⟨name, some u⟩).operation =
      .single (Group.memberChange m.id ⟨name, some u⟩) := by
    change (Operation.ofCheck (Naming.validateName? "name" name)).bind _ = _
    rw [hname]
    rfl
  refine Action.comesTo_of_locksOn (a := .updateMember m.id ⟨name, some u⟩) hbody rfl
    (Group.locksOn_rewriting hfind _) hready (Access.permit_member hfind hlinked) fun s₂ hl => ?_
  let f : Member → Member := fun o =>
    { o with name := name.getD o.name, userId := some u <|> o.userId }
  have hrow : f m.unlinked = m₂ := by simp [f, m₂, Member.unlinked, hu]
  have hg : s.tables.groups.contains m.groupId = true := hs ▸ ht.member_group m hm
  -- nobody else in the group is linked to the user
  have hcheck : s.tables.check (.put (.member m₂)) = .ok () := by
    refine check_put_member.2 ⟨hg, fun v hv => ?_⟩
    obtain rfl : u = v := Option.some.inj (hu.symm.trans hv)
    refine ⟨hs ▸ ht.member_user m hm u hu, fun o ho hog hou => ?_⟩
    have hno := ((restricts_unlinked ht hm hu).linked_iff u).1
      ⟨o, mem_membersOf.2 ⟨hs ▸ ho, hog⟩, hou⟩
    simp at hno
  obtain ⟨htables, hr⟩ := hl.of_alone ((Group.alone_rewriting (g := f) fun _ => rfl).2
    ⟨m.unlinked, hfind, hg, hrow.symm ▸ hcheck, rfl⟩)
  refine ⟨hr.trans (congrArg Except.ok hrow), htables.trans ?_⟩
  rw [hs, hrow]
  exact setMember_setMember t rfl

end Steps

namespace System

variable {service : Service} {sys : System} {client : Client}

/-- **Unlinking takes out the pairs of one user, and linking puts them back**, in
every system that can come about and every group whose shares can be added up
without rounding. If a member of the group takes the account off the row `m`, then
nothing but that row changes; the pairs of the group are those of before without
the ones of the user, who has no net; and if anybody who is linked in the group
then links `m` to the user, the balances are exactly those of before. If the
account is deleted, the pairs are missing in the same way in every group. -/
theorem unlinking_comesTo (h : Reachable service sys) (hserves : sys.store.Serves client)
    (hinserts : sys.store.failingInsert = none) (now : ℕ) (u : ℤ) :
    (∀ m ∈ sys.store.tables.members.toList, m.userId = some u → ∀ k caller,
      sys.store.tables.ExactShares m.groupId k →
      (∃ o ∈ sys.store.tables.membersOf m.groupId, o.userId = some caller) →
      ∃ b, sys.store.Shows m.groupId b ∧
        (service.operation now (.act caller (.unlinkMember m.id))).ComesTo client sys.store
          ⟨.groups, m.groupId⟩ fun s₁ r =>
            r = .ok m.unlinked ∧ sys.store.tables.MemberIs s₁.tables m.unlinked ∧
            s₁.lockQueue = sys.store.lockQueue ∧
            (∃ b₁, s₁.Shows m.groupId b₁ ∧ b.Without b₁ fun v => v ≠ u) ∧
            ∀ client₁ now₁ caller₁ name, s₁.Serves client₁ →
              (∃ o ∈ s₁.tables.membersOf m.groupId, o.userId = some caller₁) →
              Naming.validateName? "name" name = .ok () →
              (service.operation now₁ (.act caller₁ (.updateMember m.id ⟨name, some u⟩))).ComesTo
                client₁ s₁ ⟨.groups, m.groupId⟩ fun s₂ r₂ =>
                  r₂ = .ok { m with name := name.getD m.name } ∧
                  sys.store.tables.MemberIs s₂.tables { m with name := name.getD m.name } ∧
                  s₂.Shows m.groupId b) ∧
    (sys.store.tables.users.contains u = true →
      (service.operation now (.deleteUser u u)).ComesTo client sys.store ⟨.users, u⟩ fun s₁ r =>
        r = .ok () ∧ ∀ g k, sys.store.tables.ExactShares g k →
          ∃ b b₁, sys.store.Shows g b ∧ s₁.Shows g b₁ ∧ b.Without b₁ fun v => v ≠ u) ∧
    ((∀ X, ¬ sys.Open X) → sys.store.lockQueue = []) := by
  have hsound := h.sound
  have ht := hsound.consistent
  have hready : sys.store.Ready client := ⟨hserves, hinserts, hsound.request_lt⟩
  refine ⟨fun m hm hu k caller hr hlinked => ?_, fun hin => ?_, h.queued.lockQueue_eq_nil⟩
  · have hfind : sys.store.tables.members.find? m.id = some m := Index.find?_of_mem hm
    obtain ⟨b, b₁, hb, hb₁, hwithout⟩ :=
      (restricts_unlinked ht hm hu).exists_balancesOf ht (ht.unlinked hm) hr
    have hunlink := Action.unlinkMember_comesTo ht hready hm hlinked
    refine ⟨b, Store.shows_of_balancesOf ht hb, hunlink.mono fun s₁ r hr₁ => ?_⟩
    obtain ⟨rfl, hs₁, hready₁, hqueue⟩ := hr₁
    have hshows₁ : s₁.Shows m.groupId b₁ :=
      Store.shows_of_balancesOf (hs₁ ▸ ht.unlinked hm) (hs₁ ▸ hb₁)
    refine ⟨rfl, hs₁ ▸ memberIs_setMember (m := m.unlinked) hfind, hqueue, ⟨b₁, hshows₁, hwithout⟩, ?_⟩
    intro client₁ now₁ caller₁ name hserves₁ hlinked₁ hname
    have hlink := Action.linkMember_comesTo ht ⟨hserves₁, hready₁.inserts, hready₁.request_lt⟩
      hm hu hs₁ hlinked₁ hname
    refine hlink.mono fun s₂ r₂ hr₂ => ?_
    obtain ⟨rfl, hs₂⟩ := hr₂
    let m₂ : Member := { m with name := name.getD m.name }
    have hrelinked : sys.store.tables.Restricts (sys.store.tables.setMember m₂) m.groupId _ :=
      restricts_relinked hm rfl rfl rfl
    have hb₂ := (hrelinked.balancesOf_eq ht).trans hb
    refine ⟨rfl, hs₂ ▸ memberIs_setMember hfind, ?_⟩
    exact Store.shows_of_balancesOf (hs₂ ▸ ht.relinked hm rfl rfl rfl) (hs₂ ▸ hb₂)
  · refine (Account.delete_comesTo hready hin).mono fun s₁ r hr₁ => ?_
    obtain ⟨rfl, hs₁⟩ := hr₁
    refine ⟨rfl, fun g k hr => ?_⟩
    have ht₁ := ht.dropUser_of u
    obtain ⟨b, b₁, hb, hb₁, hwithout⟩ :=
      (restricts_dropUser sys.store.tables g u).exists_balancesOf ht ht₁ hr
    exact ⟨b, b₁, Store.shows_of_balancesOf ht hb,
      Store.shows_of_balancesOf (hs₁ ▸ ht₁) (hs₁ ▸ hb₁), hwithout⟩

/-- Ada unlinks Bea, who owes her fifteen, and links her again; or Bea deletes her
account. -/
theorem unlinking_comesTo_trip :
    (∃ b s₁ b₁ s₂, Sample.trip.store.Shows 3 b ∧
      b.pairs.map (fun p => (p.creditor, p.debtor, p.amount.value)) = [(1, 2, 15)] ∧
      (Sample.service.operation 0 (.act 1 (.unlinkMember 5))).run Sample.client
        Sample.trip.store = (s₁, some (.ok ⟨5, 3, none, "Bea"⟩)) ∧
      s₁.Shows 3 b₁ ∧ b₁.pairs = [] ∧
      (Sample.service.operation 0 (.act 1 (.updateMember 5 ⟨none, some 2⟩))).run Sample.client
        s₁ = (s₂, some (.ok ⟨5, 3, some 2, "Bea"⟩)) ∧
      s₂.Shows 3 b) ∧
    ∃ s₁ b₁, (Sample.service.operation 0 (.deleteUser 2 2)).run Sample.client
        Sample.trip.store = (s₁, some (.ok ())) ∧ s₁.Shows 3 b₁ ∧ ∀ n ∈ b₁.nets, n.userId ≠ 2 := by
  have hcons : Sample.trip.store.tables.Consistent := Sample.reachable_trip.sound.consistent
  have hshares : Sample.trip.store.tables.ExactShares 3 2 :=
    hcons.exactShares_of_store Sample.exactStore_trip 3
  have hidle : ∀ key X, (key, X) ∉ Sample.trip.store.lockQueue := by
    have hqueue : Sample.trip.store.lockQueue = [] := by decide +kernel
    simp [hqueue]
  obtain ⟨hunlink, hdelete, -⟩ :=
    unlinking_comesTo Sample.reachable_trip (Sample.serves_client _) (by decide +kernel) 0 2
  refine ⟨?_, ?_⟩
  · let bea : Member := ⟨5, 3, some 2, "Bea"⟩
    have hbea : bea ∈ Sample.trip.store.tables.members.toList := by decide +kernel
    obtain ⟨b, hb, hcomes⟩ := hunlink bea hbea rfl 2 1 hshares (by decide +kernel)
    obtain ⟨s₁, r, hrun⟩ := hcomes.answered (hidle _)
    obtain ⟨rfl, hmember, hqueue, ⟨b₁, hb₁, hwithout⟩, hagain⟩ := hcomes.outcome s₁ r hrun
    have hpairs : b.pairs.map (fun p => (p.creditor, p.debtor, p.amount.value)) = [(1, 2, 15)] := by
      have hcalc : (Statement.balancesOf Sample.trip.store.tables 3).toOption.map (fun b =>
          b.pairs.map fun p => (p.creditor, p.debtor, p.amount.value)) = some [(1, 2, 15)] := by
        decide +kernel
      rw [hb.calculated] at hcalc
      exact Option.some.inj hcalc
    have hnone : b₁.pairs = [] := by
      rw [hwithout.pairs_eq, List.filter_eq_nil_iff]
      intro p hp
      have hkey := List.mem_map_of_mem (f := fun p => (p.creditor, p.debtor, p.amount.value)) hp
      rw [hpairs, List.mem_singleton] at hkey
      simp [(Prod.mk.inj (Prod.mk.inj hkey).2).1]
    -- Ada is still linked in the group
    let ada : Member := ⟨4, 3, some 1, "Ada"⟩
    have hada : ada ∈ s₁.tables.members.toList := by
      rw [hmember.members_eq]
      exact List.mem_map.2 ⟨ada, by decide +kernel, rfl⟩
    have hcomes₁ := hagain Sample.client 0 1 none (Sample.serves_client _)
      ⟨ada, mem_membersOf.2 ⟨hada, rfl⟩, rfl⟩ rfl
    obtain ⟨s₂, r₂, hrun₂⟩ := hcomes₁.answered fun X => hqueue ▸ hidle _ X
    obtain ⟨rfl, -, hb₂⟩ := hcomes₁.outcome s₂ r₂ hrun₂
    exact ⟨b, s₁, b₁, s₂, hb, hpairs, hrun, hb₁, hnone, hrun₂, hb₂⟩
  · have hcomes := hdelete (by decide +kernel)
    obtain ⟨s₁, r, hrun⟩ := hcomes.answered (hidle _)
    obtain ⟨rfl, hgroups⟩ := hcomes.outcome s₁ r hrun
    obtain ⟨b, b₁, -, hb₁, hwithout⟩ := hgroups 3 2 hshares
    exact ⟨s₁, b₁, hrun, hb₁, fun n hn => of_decide_eq_true (hwithout.nets n hn)⟩

end System

end SharedLedger
