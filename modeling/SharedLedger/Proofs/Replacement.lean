import SharedLedger.Proofs.Driven
import SharedLedger.Proofs.Waiting

/-!
# All members of a group, replaced

A group gets new members in place of all it has, unless one of them has paid for an
expense, and that is so just where the group has expenses at all
(`Tables.Consistent.expensePaidIn?_eq`). Then the payer of the first of them is named and
nothing changes. Otherwise the members are those proposed, under new ids, and nobody
refers to a member that is gone: whoever owes a share is a member of the group of its
expense (`System.replacement_comesTo`).

That no account is linked twice is checked when a member is put in. The old members
have been taken out by then, so only the accounts proposed have to differ.
-/

namespace SharedLedger

open Tables Plan

/-! ## The checks of the members proposed -/

namespace Naming

variable {g u : Int} {m : MemberDraft} {ms : List MemberDraft} {seen : List Int}

theorem checkMembers_cons_none (hu : m.userId = none) : checkMembers g seen (m :: ms) =
    (validateName "name" m.name >>= fun _ => checkMembers g seen ms) := by
  rw [checkMembers, hu]

theorem checkMembers_cons_some (hu : m.userId = some u) : checkMembers g seen (m :: ms) =
    (validateName "name" m.name >>= fun _ =>
      if seen.contains u then .error (.alreadyMember u g) else checkMembers g (u :: seen) ms) := by
  rw [checkMembers, hu]
  rfl

theorem checkMembers_eq_ok_iff :
    checkMembers g seen ms = .ok () ↔ (∀ m ∈ ms, validateName "name" m.name = .ok ()) ∧
      (ms.filterMap (·.userId)).Nodup ∧ ∀ u ∈ ms.filterMap (·.userId), u ∉ seen := by
  induction ms generalizing seen with
  | nil => simp [checkMembers]
  | cons m ms ih =>
    rw [List.forall_mem_cons, and_assoc]
    cases hu : m.userId with
    | none =>
      rw [checkMembers_cons_none hu, Failure.check_bind_eq_ok_iff, List.filterMap_cons_none hu]
      exact and_congr_right fun _ => ih
    | some u =>
      rw [checkMembers_cons_some hu, Failure.check_bind_eq_ok_iff,
        List.filterMap_cons_some hu, List.nodup_cons, List.forall_mem_cons]
      refine and_congr_right fun _ => ?_
      by_cases hseen : u ∈ seen
      · simp [hseen]
      · -- those that follow have to differ from this account as well
        have hothers : (∀ v ∈ ms.filterMap (·.userId), v ∉ u :: seen) ↔
            u ∉ ms.filterMap (·.userId) ∧ ∀ v ∈ ms.filterMap (·.userId), v ∉ seen := by
          simp only [List.mem_cons, not_or]
          exact ⟨fun h => ⟨fun hu => (h u hu).1 rfl, fun v hv => (h v hv).2⟩,
            fun h v hv => ⟨fun he => h.1 (he ▸ hv), h.2 v hv⟩⟩
        simp only [List.contains_iff_mem, hseen, if_false, ih, hothers]
        tauto

/-- **Members may be proposed** if there are some, all have proper names, and no
account occurs twice. -/
theorem validateMembers_eq_ok_iff :
    validateMembers g ms = .ok () ↔ ms ≠ [] ∧ (∀ m ∈ ms, validateName "name" m.name = .ok ()) ∧
      (ms.filterMap (·.userId)).Nodup := by
  unfold validateMembers
  cases ms with
  | nil => simp
  | cons m ms => simp [checkMembers_eq_ok_iff]

end Naming

/-! ## Who has paid for something -/

namespace Tables

variable {t : Tables} {g : Int}

/-- A member is in one group only. -/
theorem HasMember.groupId_eq {m : Member} (h : t.HasMember g m.id) (hm : m ∈ t.members.toList) :
    m.groupId = g := by
  obtain ⟨o, ho, hg⟩ := h
  rw [Index.find?_of_mem hm] at ho
  cases ho
  exact hg

/-- **Who has paid for something has paid for the group**, and every expense of a
group was paid by one of its members. -/
theorem Consistent.expensePaidIn?_eq (ht : t.Consistent) (g : Int) :
    t.expensePaidIn? g = (t.expensesOf g).head? := by
  unfold expensePaidIn? expensesOf
  rw [← List.head?_filter]
  congr 1
  refine List.filter_congr fun e he => ?_
  have hpayer := ht.expense_payer e he
  rw [Bool.eq_iff_iff, List.any_eq_true, beq_iff_eq]
  constructor
  · rintro ⟨m, hm, hid⟩
    obtain ⟨hm, hmg⟩ := mem_membersOf.1 hm
    rw [← beq_iff_eq.1 hid] at hpayer
    exact (hpayer.groupId_eq hm).symm.trans hmg
  · rintro rfl
    obtain ⟨m, hm, hid⟩ := hasMember_iff_mem.1 hpayer
    exact ⟨m, hm, beq_iff_eq.2 hid⟩

/-- Nobody refers to the members of a group that has no expenses. -/
theorem Consistent.not_referred (ht : t.Consistent) (hnone : t.expensesOf g = []) {m : Member}
    (hm : m ∈ t.membersOf g) :
    (∀ e ∈ t.expenses.toList, e.paidBy ≠ m.id) ∧
      ∀ s ∈ t.shares.toList, s.owedBy ≠ some m.id := by
  obtain ⟨hm, hmg⟩ := mem_membersOf.1 hm
  have hno : ∀ e ∈ t.expenses.toList, ¬ t.HasMember e.groupId m.id := fun e he h => by
    have hmem : e ∈ t.expensesOf g := mem_expensesOf.2 ⟨he, (h.groupId_eq hm).symm.trans hmg⟩
    rw [hnone] at hmem
    cases hmem
  constructor
  · intro e he hp
    exact hno e he (hp ▸ ht.expense_payer e he)
  · intro s hs ho
    obtain ⟨e, he, -, howed⟩ := ht.share_expense s hs
    exact hno e (Index.mem_of_find? he) (howed _ ho)

/-- The tables with the members put in one after the other. -/
def putMembers (t : Tables) (ms : List Member) : Tables :=
  { t with members := ms.foldl Index.put t.members }

end Tables

/-- What was proposed as this member. -/
def Member.draft (m : Member) : MemberDraft := ⟨m.name, m.userId⟩

/-! ## The old members out and the new ones in -/

namespace Group

variable {t : Tables} {g n : Int} {ids : Stream' Int} {ms : List MemberDraft}

theorem mem_memberRows {m : Member} (h : m ∈ memberRows g ids ms) :
    ∃ d ∈ ms, ∃ k, m = ⟨ids.get k, g, d.userId, d.name⟩ :=
  mem_rows (fun id (d : MemberDraft) => ⟨id, g, d.userId, d.name⟩) (fun _ => rfl)
    (fun _ _ _ => rfl) h

/-- **Different accounts that nobody of the group is linked to may all be linked.** -/
theorem replay_insertions (hg : t.groups.contains g = true)
    (husers : ∀ u ∈ ms.filterMap (·.userId), t.users.contains u = true)
    (hdistinct : (ms.filterMap (·.userId)).Nodup)
    (hfree : ∀ o ∈ t.members.toList, o.groupId = g → ∀ u ∈ ms.filterMap (·.userId),
      o.userId ≠ some u) :
    t.replay (insertions g ids ms) = .ok (t.putMembers (memberRows g ids ms)) := by
  -- the accounts still to be linked stay free, as each of them occurs once
  induction ms generalizing t ids with
  | nil => rfl
  | cons m ms ih =>
    have hrest : ∀ u ∈ ms.filterMap (·.userId), u ∈ (m :: ms).filterMap (·.userId) :=
      ((List.sublist_cons_self m ms).filterMap _).subset
    have hfirst : ∀ u, m.userId = some u → u ∈ (m :: ms).filterMap (·.userId) := fun u hu =>
      List.mem_filterMap.2 ⟨m, List.mem_cons_self, hu⟩
    have hc : t.check (.put (.member ⟨ids.head, g, m.userId, m.name⟩)) = .ok () :=
      check_put_member.2 ⟨hg, fun u hu => ⟨husers u (hfirst u hu), fun o ho hog hou =>
        absurd hou (hfree o ho hog u (hfirst u hu))⟩⟩
    refine replay_cons.2 ⟨hc, ih hg (fun u hu => husers u (hrest u hu))
      (hdistinct.sublist ((List.sublist_cons_self m ms).filterMap _)) fun o ho hog u hu hou => ?_⟩
    rcases (Index.mem_put ..).1 ho with rfl | ⟨ho, -⟩
    · have hm : m.userId = some u := hou
      rw [List.filterMap_cons_some hm] at hdistinct
      exact (List.nodup_cons.1 hdistinct).1 hu
    · exact hfree o ho hog u (hrest u hu) hou

/-- **All members are replaced by those proposed.** The members of the group `g` are
the new ones, in the order proposed and under ids from `n` on that nothing has used;
the old ones are gone and nothing refers to them; all other rows are what they
were. -/
structure Replaces (g : Int) (ms : List MemberDraft) (n : Int) (t t' : Tables)
    (w : MembersReplaced) : Prop where
  listed : t'.membersOf g = w.created
  drafts_eq : w.created.map Member.draft = ms
  fresh : ∀ m ∈ w.created, n ≤ m.id ∧ ∀ table, t.contains table m.id = false
  ascending : w.created.Pairwise fun a b => a.id < b.id
  deleted_eq : w.deleted = (t.membersOf g).length
  gone : ∀ m ∈ t.membersOf g, t'.members.contains m.id = false
  not_referred : ∀ m ∈ t.membersOf g, (∀ e ∈ t'.expenses.toList, e.paidBy ≠ m.id) ∧
    ∀ s ∈ t'.shares.toList, s.owedBy ≠ some m.id
  others : ∀ m, m.groupId ≠ g → (m ∈ t'.members.toList ↔ m ∈ t.members.toList)
  users_eq : t'.users = t.users
  groups_eq : t'.groups = t.groups
  expenses_eq : t'.expenses = t.expenses
  shares_eq : t'.shares = t.shares

theorem replaces_of_expensesOf_eq_nil (ht : t.Consistent) (hf : Fresh ids t)
    (hn : ∀ k, n ≤ ids.get k) (hnone : t.expensesOf g = []) :
    Replaces g ms n t
      ((t.dropMembers fun m => m.groupId == g).putMembers (memberRows g ids ms))
      ⟨(t.membersOf g).length, memberRows g ids ms⟩ := by
  let p : Member → Bool := fun m => m.groupId == g
  have hmembers : ((t.dropMembers p).putMembers (memberRows g ids ms)).members =
      t.members.replaceWith p (memberRows g ids ms) := rfl
  have hrow : ∀ m ∈ memberRows g ids ms,
      m.groupId = g ∧ n ≤ m.id ∧ ∀ table, t.contains table m.id = false := by
    intro m hm
    obtain ⟨d, -, k, rfl⟩ := mem_memberRows hm
    exact ⟨rfl, hn k, hf.unused k⟩
  have hnew : ∀ m ∈ memberRows g ids ms, t.members.contains m.id = false :=
    fun m hm => (hrow m hm).2.2 .members
  have hasc : (memberRows g ids ms).Pairwise fun a b => a.id < b.id :=
    ascending_rows (fun id (d : MemberDraft) => ⟨id, g, d.userId, d.name⟩) (fun _ => rfl)
      (fun _ _ _ => rfl) (fun _ _ => rfl) hf.ascending
  have hdrafts : (memberRows g ids ms).map Member.draft = ms.map fun d => d :=
    map_rows (fun id (d : MemberDraft) => ⟨id, g, d.userId, d.name⟩) (fun _ => rfl)
      (fun _ _ _ => rfl) fun _ _ => rfl
  refine
  { listed := Index.filter_replaceWith hnew hasc fun m hm => beq_iff_eq.2 (hrow m hm).1
    drafts_eq := hdrafts.trans (List.map_id' ms)
    fresh := fun m hm => (hrow m hm).2
    ascending := hasc
    deleted_eq := rfl
    gone := fun m hm => ?_
    not_referred := fun m hm => ht.not_referred hnone hm
    others := fun m hm => ?_
    users_eq := rfl, groups_eq := rfl, expenses_eq := rfl, shares_eq := rfl }
  · obtain ⟨hm, hmg⟩ := mem_membersOf.1 hm
    exact Index.contains_replaceWith_eq_false hnew hasc hm (beq_iff_eq.2 hmg)
  · rw [hmembers, Index.mem_replaceWith hnew hasc]
    exact ⟨fun h => h.elim (fun hr => absurd (hrow m hr).1 hm) And.left,
      fun h => .inr ⟨h, beq_eq_false_iff_ne.2 hm⟩⟩

/-- In a group without expenses nothing is refused on the way. -/
theorem alone_replacement_of_expensesOf_eq_nil (ht : t.Consistent)
    (hg : t.groups.contains g = true) (hnone : t.expensesOf g = [])
    (husers : ∀ u ∈ ms.filterMap (·.userId), t.users.contains u = true)
    (hdistinct : (ms.filterMap (·.userId)).Nodup) :
    (replacement g ms).alone t ids = .ok ⟨⟨(t.membersOf g).length, memberRows g ids ms⟩,
      [⟨.groups, g⟩], t.deletionOfMembers g ++ insertions g ids ms,
      (t.dropMembers fun m => m.groupId == g).putMembers (memberRows g ids ms),
      ids.drop ms.length⟩ := by
  have hpaid : t.expensePaidIn? g = none := by
    rw [ht.expensePaidIn?_eq, hnone]
    rfl
  have hdelete : t.replay (t.deletionOfMembers g) =
      .ok (t.dropMembers fun m => m.groupId == g) := by
    rw [← dropMembers_membersOf]
    exact replay_delete_members_iff.2 ⟨expensePaidIn?_eq_none.1 hpaid, rfl⟩
  refine alone_replacement.2 ⟨hg, hpaid, _, replay_append.2 ⟨_, hdelete, ?_⟩, rfl⟩
  refine replay_insertions hg husers hdistinct fun o ho hog => ?_
  have hout := ((Index.mem_filter ..).1 ho).2
  simp [hog] at hout

/-- Whoever has paid for something stays. -/
theorem result_replacement_of_paid {e : SharedLedger.Expense} (hg : t.groups.contains g = true)
    (hpaid : t.expensePaidIn? g = some e) :
    (replacement g ms).result t ids = .error (.refused (.memberInUse e.paidBy)) := by
  have hdelete : (ask (.deleteMembers g)).result t ids =
      .error (.refused (.memberInUse e.paidBy)) := by
    unfold ask
    rw [result_call]
    simp only [Call.effect, hpaid]
    rfl
  have hrequire : t.require .groups g = .ok () := require_eq_ok_iff.2 hg
  unfold replacement hold
  simp only [bind_eq, Plan.bind]
  rw [result_lock, hrequire]
  change ((ask (.deleteMembers g)).bind _).result t ids = _
  rw [result_bind, hdelete]
  rfl

end Group

namespace System

variable {service : Service} {sys : System} {client : Client}

/-- **Members are replaced all together or not at all.** Whatever has happened before,
if somebody who is linked to a member of a group proposes other members for it, properly
named and with accounts that exist and differ, this is refused just where the group has
expenses, with the name of who has paid for the first of them, and without having
changed anything; where it has none, the members proposed take the place of those the
group has had. This is kept waiting only by who has asked for the row of the group, and
if no transaction is open nobody has. -/
theorem replacement_comesTo (h : Reachable service sys) (hserves : sys.store.Serves client)
    (hinserts : sys.store.failingInsert = none) (now : Nat) {caller g : Int}
    (hlinked : ∃ m ∈ sys.store.tables.membersOf g, m.userId = some caller)
    {ms : List MemberDraft} (hms : ms ≠ [])
    (hnames : ∀ m ∈ ms, Naming.validateName "name" m.name = .ok ())
    (husers : ∀ u ∈ ms.filterMap (·.userId), sys.store.tables.users.contains u = true)
    (hdistinct : (ms.filterMap (·.userId)).Nodup) :
    (service.operation now (.act caller (.replaceMembers g ms))).ComesTo client sys.store
      ⟨.groups, g⟩ (fun s' r =>
        ((∃ id, r = .error (.refused (.memberInUse id))) ↔ sys.store.tables.expensesOf g ≠ []) ∧
        (∀ e ∈ sys.store.tables.expensesOf g,
          (∀ e' ∈ sys.store.tables.expensesOf g, e.id ≤ e'.id) →
          r = .error (.refused (.memberInUse e.paidBy)) ∧ s'.tables = sys.store.tables) ∧
        (sys.store.tables.expensesOf g = [] → ∃ w, r = .ok w ∧
          Group.Replaces g ms sys.store.nextId sys.store.tables s'.tables w)) ∧
    ((∀ X, ¬ sys.Open X) → sys.store.lockQueue = []) := by
  have hsound := h.sound
  have hcons := hsound.consistent
  have hready : sys.store.Ready client := ⟨hserves, hinserts, hsound.request_lt⟩
  have hg : sys.store.tables.groups.contains g = true := hcons.contains_of_linked hlinked
  have hbody : (Action.replaceMembers g ms).operation = .single (Group.replacement g ms) := by
    have hcheck := Naming.validateMembers_eq_ok_iff (g := g).2 ⟨hms, hnames, hdistinct⟩
    change Group.replaceMembers g ms = _
    unfold Group.replaceMembers
    rw [hcheck]
    rfl
  have hlocks : (Group.replacement g ms).LocksOnly (· = ⟨.groups, g⟩) :=
    locksOnly_hold_bind rfl fun _ => (unlocked_ask _).bind fun _ =>
      (Group.unlocked_insertMembers g ms).bind fun _ => .done _
  refine ⟨Action.comesTo_on hbody rfl hlocks hready (Access.permit_eq_ok hg hlinked)
    fun s' hl => ?_, h.queued.lockQueue_eq_nil⟩
  by_cases hnone : sys.store.tables.expensesOf g = []
  · obtain ⟨htables, hr⟩ := hl.of_alone
      (Group.alone_replacement_of_expensesOf_eq_nil hcons hg hnone husers hdistinct)
    rw [hr, htables]
    refine ⟨by simp [hnone], fun e he => ?_, fun _ => ⟨_, rfl, ?_⟩⟩
    · rw [hnone] at he
      cases he
    · exact Group.replaces_of_expensesOf_eq_nil hcons hsound.fresh_next
        (fun k => Int.le_add_of_nonneg_right (Int.natCast_nonneg k)) hnone
  · have refused : ∀ e, (sys.store.tables.expensesOf g).head? = some e →
        ((Group.replacement g ms).result sys.store.tables (idsFrom sys.store.nextId)).map Prod.fst =
          .error (.refused (.memberInUse e.paidBy)) ∧ s'.tables = sys.store.tables := by
      intro e he
      have hresult : (Group.replacement g ms).result sys.store.tables (idsFrom sys.store.nextId) =
          .error (.refused (.memberInUse e.paidBy)) :=
        Group.result_replacement_of_paid hg ((hcons.expensePaidIn?_eq g).trans he)
      rw [hresult]
      exact ⟨rfl, hl.of_error _ hresult⟩
    obtain ⟨e₀, he₀⟩ := Option.ne_none_iff_exists'.1 fun h => hnone (List.head?_eq_none_iff.1 h)
    refine ⟨⟨fun _ => hnone, fun _ => ⟨_, (refused e₀ he₀).1⟩⟩, fun e he hle => ?_,
      fun h => absurd h hnone⟩
    exact refused e (Index.head?_filter_of_le he hle)

end System

namespace Sample

/-- The small ledger without the dinner. -/
def undined : System :=
  (trip.given service 5 client (.act 1 (.deleteExpense 6))).turns (.replicate 20 5)

theorem reachable_undined : System.Reachable service undined :=
  (reachable_trip.given 5 _ _).turns _

/-- Ada goes, and somebody without an account comes. -/
def successors : List MemberDraft := [⟨"Cleo", none⟩, ⟨"Bea", some 2⟩]

end Sample

namespace System

/-- As long as there is the dinner Ada has paid for, she stays; without it she is
replaced. -/
theorem replacement_comesTo_trip :
    (∃ s', (Sample.service.operation 0 (.act 1 (.replaceMembers 3 Sample.successors))).run
        Sample.client Sample.trip.store = (s', some (.error (.refused (.memberInUse 4)))) ∧
      s'.tables = Sample.trip.store.tables) ∧
    ∃ s' w, (Sample.service.operation 0 (.act 1 (.replaceMembers 3 Sample.successors))).run
        Sample.client Sample.undined.store = (s', some (.ok w)) ∧
      Group.Replaces 3 Sample.successors Sample.undined.store.nextId Sample.undined.store.tables
        s'.tables w := by
  have hms : Sample.successors ≠ [] := by decide
  have hnames : ∀ m ∈ Sample.successors, Naming.validateName "name" m.name = .ok () := by decide
  have hdistinct : (Sample.successors.filterMap (·.userId)).Nodup := by decide
  have hidle : ∀ q : List (RowKey × TxnId), q = [] → ∀ X, (⟨.groups, 3⟩, X) ∉ q := by
    rintro _ rfl X hX
    cases hX
  constructor
  · have hserves : Sample.trip.store.Serves Sample.client := ⟨rfl, nofun⟩
    have hlinked : ∃ m ∈ Sample.trip.store.tables.membersOf 3, m.userId = some 1 := by
      decide +kernel
    have husers : ∀ u ∈ Sample.successors.filterMap (·.userId),
        Sample.trip.store.tables.users.contains u = true := by decide +kernel
    obtain ⟨h, -⟩ := replacement_comesTo Sample.reachable_trip hserves (by decide +kernel) 0 hlinked
      hms hnames husers hdistinct
    obtain ⟨s', r, hrun⟩ := h.answered (hidle _ (by decide +kernel))
    obtain ⟨e, he, hle, hpaid⟩ : ∃ e ∈ Sample.trip.store.tables.expensesOf 3,
        (∀ e' ∈ Sample.trip.store.tables.expensesOf 3, e.id ≤ e'.id) ∧ e.paidBy = 4 := by
      decide +kernel
    obtain ⟨rfl, htables⟩ := (h.outcome s' r hrun).2.1 e he hle
    exact ⟨s', hpaid ▸ hrun, htables⟩
  · have hserves : Sample.undined.store.Serves Sample.client := ⟨rfl, nofun⟩
    have hlinked : ∃ m ∈ Sample.undined.store.tables.membersOf 3, m.userId = some 1 := by
      decide +kernel
    have husers : ∀ u ∈ Sample.successors.filterMap (·.userId),
        Sample.undined.store.tables.users.contains u = true := by decide +kernel
    obtain ⟨h, -⟩ := replacement_comesTo Sample.reachable_undined hserves (by decide +kernel) 0
      hlinked hms hnames husers hdistinct
    obtain ⟨s', r, hrun⟩ := h.answered (hidle _ (by decide +kernel))
    obtain ⟨w, rfl, hw⟩ := (h.outcome s' r hrun).2.2 (by decide +kernel)
    exact ⟨s', w, hrun, hw⟩

end System

end SharedLedger
