import SharedLedger.Proofs.Barred
import SharedLedger.Proofs.Deleted
import SharedLedger.Proofs.Outsiders

/-!
# Turned away for good

The tokens of a deleted account may still be valid, so it is the tables that
have to turn its former owner away, and they do (`System.shutOut_of_deleted`).
Actions in groups, new groups, the account itself and refresh tokens are
refused, and whatever is asked for in the name of the account comes to nothing
among other commands as well.
-/

namespace SharedLedger

open Tables Operation

variable {α β : Type} {u : Int}

/-! ## What cannot succeed -/

/-- A command that is given in the name of an account and needs it: an action,
a new group, what is done with accounts, and a refresh. -/
def Service.NeedsAccount (service : Service) (now : Nat) (u : Int) : Command → Prop
  | .act caller _ | .createGroup caller _ | .getUser caller _ | .updateUser caller _ _
  | .deleteUser caller _ => caller = u
  | .refresh token => ∃ claims, service.tokens.validate now .refresh token = .ok claims ∧
      claims.userId = .ok u
  | _ => False

namespace Tables.Lacks

variable {T : Tables} {kind : Tables → Prop} {allowed : α → Prop}

theorem find_eq_none (h : T.Lacks u) : T.users.find? u = none :=
  Index.contains_eq_false_iff.1 h.no_account

/-- Whoever looks for the account gives up. -/
theorem idle_user (h : T.Lacks u) (f : User → Plan α) :
    ((Plan.user u).bind f).Idle kind allowed T := by
  intro n ms r he
  obtain ⟨rfl, rfl⟩ := Prod.mk.inj (Except.ok.inj he)
  refine ⟨rfl, ?_⟩
  rw [h.find_eq_none]
  trivial

/-- Nobody gets the lock of the account. -/
theorem idle_hold (f : Unit → Plan α) : ((Plan.hold .users u).bind f).Idle (·.Lacks u) allowed T := by
  intro T' hT' hc
  exact absurd hc (Bool.eq_false_iff.1 hT'.no_account)

/-- In no group is there a member linked to the account. -/
theorem any_isLinkedTo_eq_false (h : T.Lacks u) (g : Int) :
    ((T.membersOf g).any fun m => m.isLinkedTo u) = false := by
  rw [Bool.eq_false_iff]
  intro hany
  obtain ⟨m, hm, hlinked⟩ := Access.any_isLinkedTo.1 hany
  exact h.no_member m (mem_membersOf.1 hm).1 hlinked

theorem outside (h : T.Lacks u) (r : Resource) : T.Outside u r :=
  fun _ _ m hm => h.no_member m (mem_membersOf.1 hm).1

end Tables.Lacks

/-- Who is nobody's member is not let through. -/
theorem Access.barred_authorize (u : Int) (r : Resource) : (authorize u r).Barred (·.Lacks u) := by
  refine barred_single_bind (readOnly_owningGroup r) fun g => ⟨fun e => ?_, fun T hT => ?_⟩
  · cases e <;> exact barred_error _
  · intro n ms answer he
    obtain ⟨rfl, rfl⟩ := Prod.mk.inj (Except.ok.inj he)
    refine ⟨rfl, ?_⟩
    change (ofCheck (verdict (.ok ((T.membersOf g).any fun m => m.isLinkedTo u)))).Barred
      (·.Lacks u)
    rw [hT.any_isLinkedTo_eq_false]
    exact barred_error _

theorem Account.eq_of_requireSelf {caller userId : Int} {x : Unit}
    (h : requireSelf caller userId = .ok x) : caller = userId := by
  unfold requireSelf at h
  split at h
  · assumption
  · cases h

/-- **Commands that need an account come to nothing without it.** -/
theorem Service.barred_of_needsAccount {service : Service} {now : Nat} {c : Command}
    (h : service.NeedsAccount now u c) : (service.operation now c).Barred (·.Lacks u) := by
  cases c with
  | act caller a =>
    cases h
    exact barred_ofCheck_bind fun _ _ => (Access.barred_authorize u a.resource).bind _
  | createGroup caller draft =>
    cases h
    exact barred_ofCheck_bind fun _ _ => barred_single fun T hT => hT.idle_user _
  | getUser caller v =>
    cases h
    refine barred_ofCheck_bind fun _ hself => barred_single fun T hT => ?_
    obtain rfl := Account.eq_of_requireSelf hself
    exact Plan.bind_done (Plan.user u) ▸ hT.idle_user .done
  | updateUser caller v update =>
    cases h
    refine barred_ofCheck_bind fun _ hself => barred_ofCheck_bind fun _ _ =>
      barred_ofCheck_bind fun _ _ => barred_single fun T _ => ?_
    obtain rfl := Account.eq_of_requireSelf hself
    exact Tables.Lacks.idle_hold _
  | deleteUser caller v =>
    cases h
    refine barred_ofCheck_bind fun _ hself => barred_single fun T _ => ?_
    obtain rfl := Account.eq_of_requireSelf hself
    exact Tables.Lacks.idle_hold _
  | refresh token =>
    obtain ⟨claims, hvalid, huser⟩ := h
    refine barred_ofCheck_bind fun _ hc => barred_ofCheck_bind fun v hv => ?_
    cases hvalid.symm.trans hc
    cases huser.symm.trans hv
    refine ⟨fun e => ?_, fun T hT => Plan.bind_done (Plan.user u) ▸ hT.idle_user .done⟩
    cases e <;> exact barred_error _
  | register | authenticate | listGroups | myBalances | myExpenses | myShares => cases h

/-! ## What it is refused with -/

section Refusals

variable {s : Store} {client : Client} {e : LedgerError}

namespace Operation

/-- A transaction that is refused without having committed anything. -/
theorem refused_of_drive {body : Plan β} {next : Except LedgerError β → Operation α}
    {s₁ : Store} {t₁ : Txn} {e' : LedgerError} (hs : s.Serves client)
    (hdrive : body.drive { s with nextTxn := s.nextTxn + 1 } ⟨s.nextTxn, client, s.tables, []⟩ =
      (s₁, .ended (.error (.refused e)) t₁))
    (htables : s₁.tables = s.tables) (hcommitted : s₁.committed = s.committed)
    (hnext : next (.error e) = .done (.error (.refused e'))) :
    (transaction body next).Refused client s e' := by
  have hbegin := hs.begin_eq
  have hb := s₁.books_rollback t₁
  refine ⟨(s₁.rollback t₁).2, ?_, ?_, ?_⟩
  · unfold run drive
    simp only [hbegin, hdrive, Store.close, Store.finish, hnext]
    rfl
  · exact (congrArg Books.tables hb).trans htables
  · exact (congrArg Books.committed hb).trans hcommitted

/-- Arguments that are not in order are refused before anything else. -/
theorem exists_refused_ofCheck_bind {x : Except LedgerError β} {f : β → Operation α}
    (hf : ∀ b, x = .ok b → ∃ e, (f b).Refused client s e) :
    ∃ e, ((ofCheck x).bind f).Refused client s e := by
  cases x with
  | ok b => exact hf b rfl
  | error e => exact ⟨e, s, rfl, rfl, rfl⟩

end Operation

namespace Store

/-- A lock that is free cannot be had where the row is missing. -/
theorem requestLock_of_missing {t : Txn} {key : RowKey} (hs : s.Serves t.client)
    (hfree : s.holder? key = none) (hj : t.journal = [])
    (hmissing : s.tables.contains key.table key.id = false) :
    s.requestLock t key = (.answered (.error (.notFound key.table key.id)),
      { t with view := s.tables }, { s with lockQueue := s.lockQueue ++ [(key, t.id)] }) := by
  have hnone : s.lockQueue.find? (fun r => r.1 = key) = none := Option.map_eq_none_iff.1 hfree
  have hfirst : s.lockQueue.contains (key, t.id) = false := by
    rw [← Bool.not_eq_true, List.contains_iff_mem]
    intro hmem
    simpa using List.find?_eq_none.1 hnone _ hmem
  have hholder : holder? { s with lockQueue := s.lockQueue ++ [(key, t.id)] } key = some t.id := by
    simp [holder?, List.find?_append, hnone]
  have hhere : isCancelled { s with lockQueue := s.lockQueue ++ [(key, t.id)] } t.client = false :=
    hs.here
  have hacquire : acquire { s with lockQueue := s.lockQueue ++ [(key, t.id)] } t key =
      (.answered (.error (.notFound key.table key.id)), { t with view := s.tables }) := by
    simp [acquire, hj, Tables.require, hmissing]
  unfold requestLock awaitLock
  rw [hs.allow]
  simp only [hfirst, hhere, hholder, hacquire, Bool.false_eq_true, ↓reduceIte]

end Store

/-- Whoever looks for an account that is not there is told so. -/
theorem Plan.refused_user {γ : Type} (h : s.tables.Lacks u) (hs : s.Serves client)
    (f : User → Plan β) {next : Except LedgerError β → Operation γ}
    (hnext : next (.error (.notFound .users u)) = .done (.error (.refused e))) :
    (transaction ((Plan.user u).bind f) next).Refused client s e := by
  let t₁ : Txn := ⟨s.nextTxn, client, s.tables, []⟩
  let s₁ : Store := { s with nextTxn := s.nextTxn + 1 }
  have hs₁ : s₁.Serves t₁.client := ⟨hs.here, hs.unharmed⟩
  have hcall := hs₁.call_eq (c := .findUser u) (Call.reads_of_effect fun _ _ => ⟨_, rfl⟩)
  have hreply : (Call.findUser u).effect s.tables 0 = .ok ([], none) := by
    rw [← h.find_eq_none]
    rfl
  have hplan : (Plan.user u).bind f =
      .call (.findUser u) fun r => (Plan.orRefuse (.notFound .users u) r).bind f := rfl
  have hdrive : ((Plan.user u).bind f).drive s₁ t₁ =
      (s₁, .ended (.error (.refused (.notFound .users u))) t₁) := by
    simp only [hplan, Plan.drive, hcall, t₁, hreply]
    rfl
  exact refused_of_drive hs hdrive rfl rfl hnext

/-- Nobody gets hold of an account that is not there. -/
theorem Plan.refused_hold (h : s.tables.Lacks u) (hs : s.Serves client)
    (hfree : s.holder? ⟨.users, u⟩ = none) (f : Unit → Plan α) :
    (single ((Plan.hold .users u).bind f)).Refused client s (.notFound .users u) := by
  let t₁ : Txn := ⟨s.nextTxn, client, s.tables, []⟩
  let s₁ : Store := { s with nextTxn := s.nextTxn + 1 }
  let s₂ : Store := { s₁ with lockQueue := s.lockQueue ++ [(⟨.users, u⟩, s.nextTxn)] }
  have hs₁ : s₁.Serves t₁.client := ⟨hs.here, hs.unharmed⟩
  have hlock : s₁.requestLock t₁ ⟨.users, u⟩ = (.answered (.error (.notFound .users u)), t₁, s₂) :=
    Store.requestLock_of_missing hs₁ hfree rfl h.no_account
  have hdrive : ((Plan.hold .users u).bind f).drive s₁ t₁ =
      (s₂, .ended (.error (.refused (.notFound .users u))) t₁) := by
    unfold Plan.hold
    simp only [Plan.bind, Plan.drive, hlock]
  exact refused_of_drive hs hdrive rfl rfl rfl

end Refusals

/-! ## At all later times -/

namespace System

variable {service : Service} {sys sys' final : System} {i : Nat} {x : Session}

/-- What can happen next while a session stays. -/
def StepBeside (service : Service) (i : Nat) (sys sys' : System) : Prop :=
  Step service sys sys' ∧ (sys'.sessions i).isSome = true

/-- A session that is barred stays barred, whoever takes the next step. -/
theorem Step.barred (hs : Step service sys sys') (hstay : (sys'.sessions i).isSome = true)
    {kind : Tables → Prop} (hk : kind sys.store.tables) (hx : sys.sessions i = some x)
    (hb : x.run.Barred kind) :
    ∃ x', sys'.sessions i = some x' ∧ x'.command = x.command ∧ x'.run.Barred kind := by
  have turned {j : Nat} {y : Session} (hy : sys.sessions j = some y) {s' : Store}
      {run' : Run y.command.Reply} (ht : Run.Turn y.client sys.store y.run s' run') :
      ∃ x', (sys.set s' j (some (y.moved sys.store s' run'))).sessions i = some x' ∧
        x'.command = x.command ∧ x'.run.Barred kind := by
    by_cases hij : i = j
    · subst hij
      cases hx.symm.trans hy
      exact ⟨_, set_sessions_self .., rfl, (ht.barred hk hb).1⟩
    · exact ⟨x, (set_sessions_of_ne hij ..).trans hx, rfl, hb⟩
  cases hs with
  | start j client now c hj =>
    have hij : i ≠ j := by
      rintro rfl
      cases hx.symm.trans hj
    exact ⟨x, (set_sessions_of_ne hij ..).trans hx, rfl, hb⟩
  | turn j y hy => exact turned hy (Run.step_turn (Prod.eta _).symm)
  | request j y hy hrun hallow hq => exact turned hy (hrun ▸ turn_request hallow hq)
  | leave j y hy =>
    by_cases hij : i = j
    · subst hij
      rw [set_sessions_self] at hstay
      cases hstay
    · exact ⟨x, (set_sessions_of_ne hij ..).trans hx, rfl, hb⟩
  | disturb d => exact ⟨x, hx, rfl, hb⟩

/-- In a system that can come about an account that is gone has nobody linked
to it. -/
theorem Gone.lacks (hg : sys.Gone u) (h : Reachable service sys) : sys.store.tables.Lacks u :=
  h.sound.consistent.lacks hg.no_account

/-- A command that is barred at all times comes to nothing beside all others. -/
theorem barred_beside {kind : Tables → Prop} {client : Client} {now : Nat} {c : Command}
    (hb : (service.operation now c).Barred kind)
    (hf : Relation.ReflTransGen (StepBeside service i)
      (sys.set sys.store i (some (.start service client now c))) final)
    (hk : ∀ mid, Relation.ReflTransGen (StepBeside service i)
        (sys.set sys.store i (some (.start service client now c))) mid →
      Relation.ReflTransGen (StepBeside service i) mid final → kind mid.store.tables) :
    ∃ x, final.sessions i = some x ∧ x.command = c ∧ x.run.Barred kind := by
  induction hf with
  | refl => exact ⟨_, set_sessions_self .., rfl, .outside hb⟩
  | tail hprev hs ih =>
    obtain ⟨x, hx, rfl, hbarred⟩ := ih fun mid hm hl => hk mid hm (hl.tail hs)
    exact hs.1.barred hs.2 (hk _ hprev (.single hs)) hx hbarred

/-- A command that needs the account comes to nothing beside all others. -/
theorem Gone.beside (hg : sys.Gone u) (h : Reachable service sys) {client : Client} {now : Nat}
    {c : Command} (hi : sys.sessions i = none) (hc : service.NeedsAccount now u c)
    (hf : Relation.ReflTransGen (StepBeside service i)
      (sys.set sys.store i (some (.start service client now c))) final) :
    ∃ x, final.sessions i = some x ∧ x.command = c ∧ (∀ a, x.run.result? ≠ some (.ok a)) ∧
      (x.run.step x.client final.store).1.tables = final.store.tables := by
  have hstart : Step service sys _ := .start i client now c hi
  have hlacks (mid : System) (hm : Relation.ReflTransGen (StepBeside service i)
      (sys.set sys.store i (some (.start service client now c))) mid) :
      mid.store.tables.Lacks u := by
    have hinv : Reachable service mid ∧ mid.Gone u := by
      induction hm with
      | refl => exact ⟨h.step hstart, hg.step h.sound hstart⟩
      | tail _ hs ih => exact ⟨ih.1.step hs.1, ih.2.step ih.1.sound hs.1⟩
    exact hinv.2.lacks hinv.1
  obtain ⟨x, hx, hxc, hb⟩ :=
    barred_beside (Service.barred_of_needsAccount hc) hf fun mid hm _ => hlacks mid hm
  exact ⟨x, hx, hxc, hb.not_ok, ((Run.step_turn (Prod.eta _).symm).barred (hlacks _ hf) hb).2⟩

/-- **What is left to the owner of an account that is gone**: nothing. -/
structure ShutOut (service : Service) (sys : System) (u : Int) : Prop where
  /-- There is no such account, and no member is linked to it. -/
  lacks : sys.store.tables.Lacks u
  /-- Actions in groups are refused for their arguments, or because there is no
  such thing, or because the caller is no member. -/
  action : ∀ now client a, sys.store.Serves client →
    ∃ e, (service.operation now (.act u a)).Refused client sys.store e ∧
      (a.checkFirst = .error e ∨ e = .forbidden ∨
        e = .notFound a.resource.key.table a.resource.key.id)
  /-- New groups are refused. -/
  group : ∀ now client draft, sys.store.Serves client →
    ∃ e, (service.operation now (.createGroup u draft)).Refused client sys.store e
  /-- Accounts are not shown. -/
  account : ∀ now client v, sys.store.Serves client →
    ∃ e, (service.operation now (.getUser u v)).Refused client sys.store e
  /-- Accounts are not changed, as soon as nobody else has locked them. -/
  change : ∀ now client v update, sys.store.Serves client → sys.store.holder? ⟨.users, v⟩ = none →
    ∃ e, (service.operation now (.updateUser u v update)).Refused client sys.store e
  /-- Nor are they deleted. -/
  deletion : ∀ now client v, sys.store.Serves client → sys.store.holder? ⟨.users, v⟩ = none →
    ∃ e, (service.operation now (.deleteUser u v)).Refused client sys.store e
  /-- Refresh tokens are worth nothing. -/
  refresh : ∀ now client token claims, sys.store.Serves client →
    service.tokens.validate now .refresh token = .ok claims → claims.userId = .ok u →
    (service.operation now (.refresh token)).Refused client sys.store
      (.unauthenticated "Account no longer exists")
  /-- Beside all others, in whatever order the steps are taken, and wherever
  clients go away and faults strike, nothing of this ever succeeds, and no step
  of it changes the tables. -/
  beside : ∀ i now client c final, sys.sessions i = none → service.NeedsAccount now u c →
    Relation.ReflTransGen (StepBeside service i)
      (sys.set sys.store i (some (.start service client now c))) final →
    ∃ x, final.sessions i = some x ∧ x.command = c ∧ (∀ a, x.run.result? ≠ some (.ok a)) ∧
      (x.run.step x.client final.store).1.tables = final.store.tables

theorem Gone.shutOut (hg : sys.Gone u) (h : Reachable service sys) : sys.ShutOut service u where
  lacks := hg.lacks h
  action now client a hs := by
    refine ⟨_, Action.refused_of_outside h.sound.consistent hs ((hg.lacks h).outside a.resource), ?_⟩
    rcases a.refusal_cases (sys.store.tables.has a.resource) with ⟨-, hcheck⟩ | ⟨-, he⟩
    · exact .inl hcheck
    · rw [he]
      split
      · exact .inr (.inl rfl)
      · exact .inr (.inr rfl)
  group now client draft hs := exists_refused_ofCheck_bind fun _ _ =>
    ⟨_, Plan.refused_user (hg.lacks h) hs _ rfl⟩
  account now client v hs := by
    refine exists_refused_ofCheck_bind fun _ hself => ⟨.notFound .users u, ?_⟩
    obtain rfl := Account.eq_of_requireSelf hself
    exact Plan.bind_done (Plan.user u) ▸ Plan.refused_user (hg.lacks h) hs .done rfl
  change now client v update hs hfree := by
    refine exists_refused_ofCheck_bind fun _ hself => exists_refused_ofCheck_bind fun _ _ =>
      exists_refused_ofCheck_bind fun _ _ => ?_
    obtain rfl := Account.eq_of_requireSelf hself
    exact ⟨_, Plan.refused_hold (hg.lacks h) hs hfree _⟩
  deletion now client v hs hfree := by
    refine exists_refused_ofCheck_bind fun _ hself => ?_
    obtain rfl := Account.eq_of_requireSelf hself
    exact ⟨_, Plan.refused_hold (hg.lacks h) hs hfree _⟩
  refresh now client token claims hs hvalid huser := by
    have hrefresh : service.operation now (.refresh token) =
        (ofCheck (service.tokens.validate now .refresh token)).bind fun claims =>
          (ofCheck claims.userId).bind fun userId => .transaction (Plan.user userId) fun r =>
            .ofCheck (Account.renewal service.tokens now r) := rfl
    rw [hrefresh, hvalid]
    change ((ofCheck claims.userId).bind _).Refused client sys.store _
    rw [huser]
    let next : Except LedgerError User → Operation TokenPair :=
      fun r => .ofCheck (Account.renewal service.tokens now r)
    have hrenewal : next (.error (.notFound .users u)) =
        .done (.error (.refused (.unauthenticated "Account no longer exists"))) := rfl
    have hrefused := Plan.refused_user (hg.lacks h) hs .done hrenewal
    rw [Plan.bind_done] at hrefused
    exact hrefused
  beside i now client c final hi hc hf := hg.beside h hi hc hf

/-- **Whoever has deleted the account is shut out from then on**, at all later
times and whatever anybody does. -/
theorem shutOut_of_deleted {later : System} (h : Reachable service sys)
    (hx : sys.sessions i = some x) (hd : x.HasDeleted u)
    (hl : Relation.ReflTransGen (Step service) sys later) : later.ShutOut service u := by
  have hinv : Reachable service later ∧ later.Gone u := by
    induction hl with
    | refl => exact ⟨h, h.gone hx hd⟩
    | tail _ hs ih => exact ⟨ih.1.step hs, ih.2.step ih.1.sound hs⟩
  exact hinv.2.shutOut hinv.1

/-- Bea deletes her account, and Ada is about to link it to a new member. -/
def parted : System :=
  (Sample.trip.given Sample.service 5 Sample.client (.deleteUser 2 2)).turns (.replicate 4 5)

theorem reachable_parted : Reachable Sample.service parted :=
  Sample.reachable_trip.given 5 _ _ |>.turns _

theorem shutOut_parted :
    Sample.trip.store.tables.users.contains 2 = true ∧
      ShutOut Sample.service (parted.set parted.store 6 (some (.start Sample.service Sample.client 0
        (.act 1 (.addMember 3 ⟨"Bea", some 2⟩))))) 2 := by
  refine ⟨by decide +kernel, ?_⟩
  exact shutOut_of_deleted (i := 5) reachable_parted rfl ⟨_, _, _, _, _, rfl, by decide +kernel⟩
    (.single (.start 6 _ 0 _ rfl))

end System

end SharedLedger
