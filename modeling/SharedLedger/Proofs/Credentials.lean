import SharedLedger.Proofs.Confined
import SharedLedger.Proofs.Deleted

/-!
# What is kept of passwords

Only registration, change and deletion write to accounts; all other commands leave
them alone (`Service.sparesUsers_operation`). Each of the three is a single
transaction, so it is answered when its transaction is committed, and one look at
what was committed tells what has become of the account. A step of a session
keeps what is kept of a password, unless it answers a command that sets one
(`System.Sound.credential_of_turn`).
-/

namespace SharedLedger

open Tables Operation Plan

/-- The account and the password that a command sets, where it succeeds. -/
def Command.setPassword? : (c : Command) → c.Reply → Option (Int × String)
  | .register r, (u : User) => some (u.id, r.password)
  | .updateUser _ id update, _ => update.password.map fun p => (id, p)
  | _, _ => none

/-! ## Who leaves the accounts alone -/

/-- A mutation that leaves the accounts alone. -/
def Mutation.SparesUsers : Mutation → Prop
  | .put (.user _) | .delete .users _ => False
  | _ => True

namespace Tables

variable {t t' : Tables} {g : Int}

theorem users_enact {m : Mutation} (h : m.SparesUsers) : (t.enact m).users = t.users := by
  match m, h with
  | .put (.group _), _ | .put (.member _), _ | .put (.expense _), _ | .put (.share _), _ => rfl
  | .delete .groups _, _ | .delete .members _, _ | .delete .expenses _, _ | .delete .shares _, _ =>
    rfl
  | .unlinkUser _, _ => rfl

theorem users_of_replay {js : List Mutation} (hs : ∀ m ∈ js, m.SparesUsers)
    (hr : t.replay js = .ok t') : t'.users = t.users := by
  induction js generalizing t with
  | nil =>
    cases hr
    rfl
  | cons m js ih =>
    obtain ⟨-, hr⟩ := replay_cons.1 hr
    rw [ih (fun k hk => hs k (List.mem_cons_of_mem m hk)) hr]
    exact users_enact (hs m List.mem_cons_self)

theorem Within.sparesUsers {m : Mutation} (h : t.Within g m) : m.SparesUsers := by
  match m, h with
  | .put (.group _), _ | .put (.member _), _ | .put (.expense _), _ | .put (.share _), _ =>
    trivial
  | .delete .groups _, _ | .delete .members _, _ | .delete .expenses _, _ | .delete .shares _, _ =>
    trivial

end Tables

/-- A plan that leaves the accounts alone. -/
structure Plan.SparesUsers {α : Type} (p : Plan α) : Prop where
  spares : ∀ {t : Tables} {ids : Stream' Int} {o : Outcome α}, Fresh ids t →
    p.alone t ids = .ok o → ∀ m ∈ o.journal, m.SparesUsers

theorem Plan.ConfinedTo.sparesUsers {α : Type} {r : Resource} {p : Plan α} (h : p.ConfinedTo r) :
    p.SparesUsers := by
  refine ⟨fun hf ho m hm => ?_⟩
  obtain ⟨g, -, hw⟩ := h.within hf ho m hm
  exact hw.sparesUsers

theorem Plan.ReadOnly.sparesUsers {α : Type} {p : Plan α} (h : p.ReadOnly) : p.SparesUsers := by
  refine ⟨fun _ ho m hm => ?_⟩
  rw [(h.alone_eq ho).1] at hm
  cases hm

theorem Group.sparesUsers_creation (userId : Int) (draft : GroupDraft) :
    (creation userId draft).SparesUsers := by
  refine ⟨fun _ ho m hm => ?_⟩
  obtain ⟨u, t', -, -, rfl⟩ := alone_creation.1 ho
  rcases List.mem_cons.1 hm with rfl | hm
  · trivial
  · cases List.mem_singleton.1 hm
    trivial

namespace Operation

variable {α β : Type}

/-- An operation whose transactions all leave the accounts alone. -/
inductive SparesUsers : Operation α → Prop
  | done (x : Except Failure α) : SparesUsers (.done x)
  | transaction {β : Type} {body : Plan β} {next : Except LedgerError β → Operation α}
      (hb : body.SparesUsers) (hn : ∀ x, (next x).SparesUsers) :
      SparesUsers (.transaction body next)

theorem sparesUsers_single {body : Plan α} (h : body.SparesUsers) : (single body).SparesUsers :=
  .transaction h fun _ => .done _

theorem SparesUsers.bind {op : Operation α} {f : α → Operation β} (h : op.SparesUsers)
    (hf : ∀ a, (f a).SparesUsers) : (op.bind f).SparesUsers := by
  induction h with
  | done x =>
    cases x with
    | ok a => exact hf a
    | error e => exact .done _
  | transaction hb _ ih => exact .transaction hb ih

theorem ConfinedTo.sparesUsers {r : Resource} {op : Operation α} (h : op.ConfinedTo r) :
    op.SparesUsers := by
  induction h with
  | done x => exact .done x
  | transaction hb _ ih => exact .transaction hb.sparesUsers ih

theorem SparesUsers.leads {op op' : Operation α} (h : op.SparesUsers) (hl : op.Leads op') :
    op'.SparesUsers := by
  induction hl with
  | start => exact h
  | next _ x ih =>
    cases ih with
    | transaction _ hn => exact hn x
  | overflow _ o _ => exact .done _

end Operation

/-- A command about an account: the ones that write to it. -/
def Command.WritesUser : Command → Prop
  | .register _ | .updateUser .. | .deleteUser .. => True
  | _ => False

/-- **All other commands leave the accounts alone.** -/
theorem Service.sparesUsers_operation {service : Service} {now : Nat} {c : Command}
    (hc : ¬c.WritesUser) : (service.operation now c).SparesUsers := by
  have asks {α : Type} {body : Plan α} (h : body.ReadOnly) : (single body).SparesUsers :=
    sparesUsers_single h.sparesUsers
  cases c with
  | register | updateUser | deleteUser => exact absurd trivial hc
  | authenticate login =>
    refine .bind (asks (readOnly_ask fun _ _ => ⟨_, rfl⟩)) fun u => ?_
    cases u with
    | none => exact .done _
    | some u =>
      refine .bind (.done _) fun b => ?_
      cases b <;> exact .done _
  | refresh token =>
    exact .bind (.done _) fun _ => .bind (.done _) fun id =>
      .transaction (readOnly_user id).sparesUsers fun _ => .done _
  | getUser caller userId => exact .bind (.done _) fun _ => asks (readOnly_user userId)
  | createGroup caller draft =>
    exact .bind (.done _) fun _ => sparesUsers_single (Group.sparesUsers_creation caller draft)
  | listGroups caller =>
    exact asks (.bind (readOnly_ask fun _ _ => ⟨_, rfl⟩) Group.readOnly_groupsOf)
  | myBalances caller =>
    exact asks (.bind (readOnly_ask fun _ _ => ⟨_, rfl⟩) fun ms =>
      .bind (Statement.readOnly_pairsOf ms) fun _ => readOnly_ofExcept _)
  | myExpenses caller =>
    exact asks (.bind (readOnly_ask fun _ _ => ⟨_, rfl⟩) Statement.readOnly_paidBy)
  | myShares caller =>
    exact asks (.bind (readOnly_ask fun _ _ => ⟨_, rfl⟩) Statement.readOnly_owedBy)
  | act caller a => exact (a.confinedTo_on caller).sparesUsers

/-! ## What is committed of a password -/

namespace Account

theorem hash_eq_ok {password : String} {cost : Nat} {c : Credential}
    (h : Password.hash password cost = .ok c) : c = .hashed (Password.key password) := by
  unfold Password.hash at h
  split at h
  · exact (Except.ok.inj h).symm
  · cases h

theorem newCredential_eq_ok {cost : Nat} {password : Option String} {c : Option Credential}
    (h : newCredential cost password = .ok c) :
    c = password.map fun p => .hashed (Password.key p) := by
  cases password with
  | none => exact (Except.ok.inj h).symm
  | some p =>
    obtain ⟨_, -, h⟩ := Failure.bind_eq_ok_iff.1 h
    obtain ⟨c', hhash, h⟩ := Failure.bind_eq_ok_iff.1 h
    cases h
    rw [hash_eq_ok hhash]
    rfl

theorem once_register (cost : Nat) (r : Registration) :
    (register cost r).Once (registration r.name r.email (.hashed (Password.key r.password))) := by
  refine once_ofCheck_bind fun _ _ => once_ofCheck_bind fun c hc => ?_
  rw [hash_eq_ok hc]
  exact .once

theorem once_update (cost : Nat) (caller id : Int) (u : UserUpdate) :
    (update cost caller id u).Once
      (change id u (u.password.map fun p => .hashed (Password.key p))) := by
  refine once_ofCheck_bind fun _ _ => once_ofCheck_bind fun _ _ => once_ofCheck_bind fun c hc => ?_
  rw [newCredential_eq_ok hc]
  exact .once

end Account

/-! ## What a step leaves of an account -/

/-- What is kept of the password of an account. -/
def Tables.credential? (t : Tables) (id : Int) : Option Credential :=
  (t.users.find? id).map User.credential

theorem Tables.credential?_put (t : Tables) (u : User) (id : Int) :
    (t.enact (.put (.user u))).credential? id =
      if u.id = id then some u.credential else t.credential? id := by
  change ((t.users.put u).find? id).map User.credential = _
  rw [Index.find?_put]
  split <;> rfl

theorem Tables.credential?_dropUser (t : Tables) (k id : Int) :
    (t.dropUser k).credential? id = if k = id then none else t.credential? id := by
  change ((t.users.erase k).find? id).map User.credential = _
  rw [Index.find?_erase]
  split <;> rfl

theorem Plan.Committed.credential?_registration {r : Registration} {c : Credential}
    {V T T' : Tables} {ids : Stream' Int} {o : Outcome User}
    (h : (Account.registration r.name r.email c).Committed V T T' ids o) (id : Int) :
    T'.credential? id = if o.answer.id = id then some c else T.credential? id := by
  obtain ⟨-, -, rfl⟩ := Account.alone_registration.1 h.alone
  obtain ⟨-, rfl⟩ := replay_singleton.1 h.replay
  exact credential?_put ..

theorem Plan.Committed.credential?_change {k : Int} {u : UserUpdate} {c : Option Credential}
    {V T T' : Tables} {ids : Stream' Int} {o : Outcome User}
    (h : (Account.change k u c).Committed V T T' ids o) (id : Int) :
    T'.credential? id = if k = id then (c <|> T.credential? id) else T.credential? id := by
  obtain ⟨v, hv, -, -, rfl⟩ := Account.alone_change.1 h.alone
  obtain ⟨-, rfl⟩ := replay_singleton.1 h.replay
  have hid : v.id = k := Index.key_of_find? hv
  -- the account was locked, so what was read of it is what is there
  have hkept : T.users.find? k = V.users.find? k :=
    h.base.kept ⟨.users, k⟩ (List.mem_singleton_self _)
  rw [credential?_put]
  change (if v.id = id then some (c.getD v.credential) else _) = _
  rw [hid]
  split
  · next heq =>
    subst heq
    rw [credential?, hkept, hv]
    cases c <;> rfl
  · rfl

theorem Plan.Committed.credential?_deletion {k : Int} {V T T' : Tables} {ids : Stream' Int}
    {o : Outcome Unit} (h : (Account.deletion k).Committed V T T' ids o) (id : Int) :
    T'.credential? id = if k = id then none else T.credential? id := by
  obtain ⟨-, rfl⟩ := Account.alone_deletion.1 h.alone
  obtain ⟨-, hr⟩ := replay_cons.1 h.replay
  obtain ⟨-, rfl⟩ := replay_singleton.1 hr
  exact credential?_dropUser ..

namespace System

variable {service : Service} {sys sys' : System} {i : Nat} {x : Session} {id : Int} {p : String}

/-- A session takes a step: the transaction of its command is committed and its answer
there, or the tables are what they were and no answer has come. -/
theorem Sound.turn_of_once (h : Sound service sys) (hx : sys.sessions i = some x)
    {plan : Plan x.command.Reply} (hop : (service.operation x.now x.command).Once plan) {s' : Store}
    {run' : Run x.command.Reply} (ht : Run.Turn x.client sys.store x.run s' run') :
    (∃ V ids o, x.run.result? = none ∧ run'.result? = some (.ok o.answer) ∧
      plan.Committed V sys.store.tables s'.tables ids o) ∨
    (s'.tables = sys.store.tables ∧ ∀ a, x.run.result? = none → run'.result? ≠ some (.ok a)) := by
  by_cases hnew : ∃ a, x.run.result? = none ∧ run'.result? = some (.ok a)
  · obtain ⟨a, hopen, hr⟩ := hnew
    obtain rfl := Run.result?_eq_some_iff.1 hr
    obtain ⟨V, ids, o, hc, rfl, -⟩ := h.committed_of_turn hx hop.endsIn hopen ht
    exact .inl ⟨V, ids, o, hopen, rfl, hc⟩
  · refine .inr ⟨?_, fun a hopen hr => hnew ⟨a, hopen, hr⟩⟩
    rcases ht.tables_eq_or with ⟨htables, -⟩ | ⟨β, t, b, next, hrun, hrun', hv, -⟩
    · exact htables
    · -- a commit would have been the answer
      obtain ⟨body, hl, -⟩ := h.committed hx hrun hv
      obtain ⟨a, ha⟩ := (hop.concludes hl).1 b
      rw [ha] at hrun'
      exact absurd ⟨a, by rw [hrun]; rfl, by rw [hrun']; rfl⟩ hnew

/-- The accounts after a step of any command that does not write to them. -/
theorem Sound.users_of_turn (h : Sound service sys) (hx : sys.sessions i = some x)
    (hc : ¬x.command.WritesUser) {s' : Store} {run' : Run x.command.Reply}
    (ht : Run.Turn x.client sys.store x.run s' run') :
    s'.tables.users = sys.store.tables.users := by
  rcases ht.tables_eq_or with ⟨htables, -⟩ | ⟨β, t, b, next, hrun, -, hv, -⟩
  · rw [htables]
  · have hsound := hrun ▸ (h.session i x hx).run
    obtain _ | ⟨-, hl, hstage, -⟩ := hsound
    obtain ⟨V, hf, halone⟩ := hstage.concluded
    cases (Service.sparesUsers_operation hc).leads hl with
    | transaction hb _ =>
      exact users_of_replay (hb.spares (h.fresh hx hf.known) (halone _)) hv

/-- The step of a session either is the one that answers a command that sets the
password of the account, and the key of that is kept; or it is not, and nothing
else is kept than before. -/
theorem Sound.credential_of_turn (h : Sound service sys) (hx : sys.sessions i = some x)
    {s' : Store} {run' : Run x.command.Reply} (ht : Run.Turn x.client sys.store x.run s' run')
    (id : Int) :
    (∃ a p, x.run.result? = none ∧ run'.result? = some (.ok a) ∧
      x.command.setPassword? a = some (id, p) ∧
      s'.tables.credential? id = some (.hashed (Password.key p))) ∨
    ((∀ a p, x.run.result? = none → run'.result? = some (.ok a) →
        x.command.setPassword? a ≠ some (id, p)) ∧
      (s'.tables.credential? id = sys.store.tables.credential? id ∨
        s'.tables.credential? id = none)) := by
  obtain ⟨client, now, c, run, opened, drawn⟩ := x
  have same (ht : s'.tables = sys.store.tables) :
      s'.tables.credential? id = sys.store.tables.credential? id := by rw [ht]
  have spared (hc : ¬c.WritesUser) :
      s'.tables.credential? id = sys.store.tables.credential? id := by
    rw [credential?, h.users_of_turn hx hc ht, credential?]
  cases c with
  | register r =>
    rcases h.turn_of_once hx (Account.once_register ..) ht with
      ⟨V, ids, o, hopen, hr, hc⟩ | ⟨htables, hnone⟩
    · have hcred := hc.credential?_registration id
      by_cases hid : o.answer.id = id
      · rw [if_pos hid] at hcred
        exact .inl ⟨o.answer, r.password, hopen, hr, by rw [← hid]; rfl, hcred⟩
      · rw [if_neg hid] at hcred
        refine .inr ⟨fun a p _ ha hset => ?_, .inl hcred⟩
        cases hr.symm.trans ha
        cases hset
        exact hid rfl
    · exact .inr ⟨fun a p hopen ha => absurd ha (hnone a hopen), .inl (same htables)⟩
  | updateUser caller k u =>
    rcases h.turn_of_once hx (Account.once_update ..) ht with
      ⟨V, ids, o, hopen, hr, hc⟩ | ⟨htables, hnone⟩
    · have hcred := hc.credential?_change id
      cases hp : u.password with
      | none =>
        refine .inr ⟨fun a p _ _ hset => ?_, .inl ?_⟩
        · simp [Command.setPassword?, hp] at hset
        · rw [hcred, hp]
          split <;> rfl
      | some p =>
        by_cases hid : k = id
        · rw [if_pos hid, hp] at hcred
          exact .inl ⟨o.answer, p, hopen, hr, by simp [Command.setPassword?, hp, hid], hcred⟩
        · rw [if_neg hid] at hcred
          refine .inr ⟨fun a q _ _ hset => ?_, .inl hcred⟩
          simp [Command.setPassword?, hp, hid] at hset
    · exact .inr ⟨fun a p hopen ha => absurd ha (hnone a hopen), .inl (same htables)⟩
  | deleteUser caller k =>
    refine .inr ⟨fun a p _ _ hset => (by cases hset), ?_⟩
    rcases h.turn_of_once hx (Account.once_delete ..) ht with
      ⟨V, ids, o, -, -, hc⟩ | ⟨htables, -⟩
    · have hcred := hc.credential?_deletion id
      split at hcred
      · exact .inr hcred
      · exact .inl hcred
    · exact .inl (same htables)
  | authenticate | refresh | getUser | createGroup | listGroups | myBalances | myExpenses | myShares
  | act =>
    exact .inr ⟨fun a p _ _ hset => (by cases hset), .inl (spared not_false)⟩

end System

end SharedLedger
