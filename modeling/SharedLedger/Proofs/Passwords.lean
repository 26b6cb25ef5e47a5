import SharedLedger.Proofs.Credentials
import SharedLedger.Proofs.Driven
import SharedLedger.Proofs.Printed
import SharedLedger.Proofs.ShutOut
import Mathlib.Data.List.GetD
import Mathlib.Data.List.TakeWhile

/-!
# Which passwords open an account

`System.LastSet` says which password of an account was set last, in a system that
came about by any steps, and looks at nothing but commands and their answers. What
the store keeps of the account is then the key of this password
(`System.LastSet.credential`), and every account there is has such a password
(`System.Reachable.exists_lastSet`). So the passwords that open the account are
those of the same key (`System.LastSet.openedBy`). Keys are the first 72 octets, as
far as no octet is zero (`Password.key_eq_key_iff`): a password that is longer is
not the only one (`System.opened_by_another`).
-/

namespace SharedLedger

open Tables Operation

/-! ## Keys -/

namespace Password

open Json (octets)

variable {p q : String}

theorem length_key (p : String) : (key p).length = 72 := by
  simp [key]

theorem getElem?_key (p : String) {i : Nat} (hi : i < 72) :
    (key p)[i]? = some ((octets p ++ [0]).getD (i % ((octets p).length + 1)) 0) := by
  have hlength : (octets p ++ [0]).length = (octets p).length + 1 := List.length_append
  rw [← hlength]
  simp [key, hi, octets]

/-- The key starts with the password. -/
theorem take_key (p : String) : (key p).take (octets p).length = (octets p).take 72 := by
  refine List.ext_getElem? fun i => ?_
  rw [List.getElem?_take, List.getElem?_take]
  by_cases hi : i < 72
  · rw [if_pos hi]
    by_cases hp : i < (octets p).length
    · rw [if_pos hp, getElem?_key p hi, Nat.mod_eq_of_lt (Nat.lt_succ_of_lt hp),
        List.getD_append _ _ _ _ hp, List.getD_eq_getElem _ _ hp, List.getElem?_eq_getElem hp]
    · rw [if_neg hp, List.getElem?_eq_none (Nat.le_of_not_lt hp)]
  · have hlength : (key p).length ≤ i := (length_key p).trans_le (Nat.le_of_not_lt hi)
    rw [if_neg hi, List.getElem?_eq_none hlength, ite_self]

/-- All there is of a long password is its start. -/
theorem key_of_le (h : 72 ≤ (octets p).length) : key p = (octets p).take 72 := by
  rw [← take_key, List.take_of_length_le ((length_key p).trans_le h)]

/-- A short password ends with a zero. -/
theorem exists_key_of_lt (h : (octets p).length < 72) : ∃ rest, key p = octets p ++ 0 :: rest := by
  have hzero : (key p)[(octets p).length]? = some 0 := by
    rw [getElem?_key p h, Nat.mod_eq_of_lt (Nat.lt_succ_self _)]
    simp
  obtain ⟨hlength, hzero⟩ := List.getElem?_eq_some_iff.1 hzero
  refine ⟨(key p).drop ((octets p).length + 1), ?_⟩
  rw [← hzero, ← List.drop_eq_getElem_cons hlength]
  conv_lhs => rw [← List.take_append_drop (octets p).length (key p), take_key,
    List.take_of_length_le h.le]

theorem takeWhile_key (h : 0 ∉ octets p) : (key p).takeWhile (· ≠ 0) = (octets p).take 72 := by
  have hne : ∀ b ∈ octets p, b ≠ 0 := fun b hb hzero => h (hzero ▸ hb)
  rcases Nat.lt_or_ge (octets p).length 72 with hlt | hle
  · obtain ⟨rest, hkey⟩ := exists_key_of_lt hlt
    rw [hkey, List.takeWhile_append_of_pos (by simpa using hne), List.take_of_length_le hlt.le]
    simp
  · rw [key_of_le hle, List.takeWhile_eq_self_iff]
    intro b hb
    simpa using hne b (List.mem_of_mem_take hb)

theorem octets_injective : Function.Injective octets := by
  intro p q h
  rw [Json.octets_eq_written, Json.octets_eq_written] at h
  exact Option.some.inj (by rw [← Json.fromUTF8?_written p, h, Json.fromUTF8?_written q])

/-- **The key of a password is its first 72 octets**, as long as none of it is
zero. -/
theorem key_eq_key_iff (hp : 0 ∉ octets p) (hq : 0 ∉ octets q) :
    key p = key q ↔ (octets p).take 72 = (octets q).take 72 := by
  constructor
  · intro h
    rw [← takeWhile_key hp, h, takeWhile_key hq]
  · intro h
    have hlength := congrArg List.length h
    rw [List.length_take, List.length_take] at hlength
    rcases Nat.lt_or_ge (octets p).length 72 with hlt | hle
    · rw [List.take_of_length_le hlt.le, List.take_of_length_le (by omega)] at h
      rw [octets_injective h]
    · rw [key_of_le hle, key_of_le (by omega), h]

/-- A password of less than 72 octets has a key of its own. -/
theorem eq_of_key_eq (hp : 0 ∉ octets p) (hq : 0 ∉ octets q) (hlt : (octets p).length < 72)
    (h : key p = key q) : p = q := by
  rw [key_eq_key_iff hp hq, List.take_of_length_le hlt.le] at h
  have hlength := congrArg List.length h
  rw [List.length_take] at hlength
  rw [List.take_of_length_le (by omega)] at h
  exact octets_injective h

end Password

/-! ## The password that was set last -/

/-- The command of the session has been answered, and has set the password. -/
def Session.HasSet (x : Session) (id : Int) (p : String) : Prop :=
  ∃ a, x.run.result? = some (.ok a) ∧ x.command.setPassword? a = some (id, p)

/-- No command has set a password before its first step. -/
theorem Session.not_hasSet_start (service : Service) (client : Client) (now : Nat) (c : Command)
    (id : Int) (p : String) : ¬(Session.start service client now c).HasSet id p := by
  rintro ⟨a, hr, hset⟩
  have hdone : service.operation now c = .done (.ok a) :=
    Run.outside.inj (Run.result?_eq_some_iff.1 hr)
  have never {plan : Plan c.Reply} (hop : (service.operation now c).Once plan) : False := by
    rw [hdone] at hop
    cases hop
  cases c with
  | register r => exact never (Account.once_register ..)
  | updateUser caller k u => exact never (Account.once_update ..)
  | _ => cases hset

namespace System

variable {service : Service} {sys sys' : System} {i : Nat} {x : Session} {id : Int} {p : String}

/-- The step from one system to the next answers a command that sets the password
of an account. -/
def Sets (sys sys' : System) (id : Int) (p : String) : Prop :=
  ∃ i x', sys'.sessions i = some x' ∧ x'.HasSet id p ∧
    ∀ x, sys.sessions i = some x → ¬x.HasSet id p

/-- **The password of an account that was set last**, in a system that can come
about. -/
inductive LastSet (service : Service) (id : Int) (p : String) : System → Prop
  /-- It has just been set. -/
  | set {sys sys' : System} (h : Reachable service sys) (hs : Step service sys sys')
      (hset : sys.Sets sys' id p) : LastSet service id p sys'
  /-- It was set before, and what has happened since has set none. -/
  | since {sys sys' : System} (h : LastSet service id p sys) (hs : Step service sys sys')
      (hnone : ∀ q, ¬sys.Sets sys' id q) : LastSet service id p sys'

theorem LastSet.reachable (h : LastSet service id p sys) : Reachable service sys := by
  induction h with
  | set h hs => exact h.step hs
  | since _ hs _ ih => exact ih.step hs

theorem sets_moved_iff (hx : sys.sessions i = some x) {s' : Store} {run' : Run x.command.Reply}
    (ht : Run.Turn x.client sys.store x.run s' run') :
    sys.Sets (sys.set s' i (some (x.moved sys.store s' run'))) id p ↔
      x.run.result? = none ∧
        ∃ a, run'.result? = some (.ok a) ∧ x.command.setPassword? a = some (id, p) := by
  constructor
  · rintro ⟨j, y, hy, hset, hnot⟩
    by_cases hji : j = i
    · subst hji
      rw [set_sessions_self] at hy
      cases hy
      refine ⟨?_, hset⟩
      cases hr : x.run.result? with
      | none => rfl
      | some r =>
        -- a session that has its answer already keeps it
        have hrun := Run.result?_eq_some_iff.1 hr
        rw [hrun] at ht
        cases ht with
        | finished =>
          obtain ⟨a, ha, hset⟩ := hset
          exact absurd ⟨a, hr.trans ha, hset⟩ (hnot x hx)
        | denied hrun => rcases hrun with hrun | hrun <;> cases hrun
    · rw [set_sessions_of_ne hji] at hy
      exact absurd hset (hnot y hy)
  · rintro ⟨hopen, hset⟩
    refine ⟨i, _, set_sessions_self .., hset, fun y hy => ?_⟩
    cases hx.symm.trans hy
    rintro ⟨a, ha, -⟩
    rw [hopen] at ha
    cases ha

/-- A step is that of a session, or it leaves the tables and sets no password. -/
theorem Step.turn_or (hs : Step service sys sys') :
    (∃ i x s', ∃ run' : Run x.command.Reply, sys.sessions i = some x ∧
      Run.Turn x.client sys.store x.run s' run' ∧
      sys' = sys.set s' i (some (x.moved sys.store s' run'))) ∨
    (sys'.store.tables = sys.store.tables ∧ ∀ id p, ¬sys.Sets sys' id p) := by
  have unset {ox : Option Session} {s' : Store} {i : Nat}
      (hox : ∀ y, ox = some y → ∀ id p, ¬y.HasSet id p) (id : Int) (p : String) :
      ¬sys.Sets (sys.set s' i ox) id p := by
    rintro ⟨j, y, hy, hset, hnot⟩
    by_cases hji : j = i
    · subst hji
      rw [set_sessions_self] at hy
      exact hox y hy id p hset
    · rw [set_sessions_of_ne hji] at hy
      exact hnot y hy hset
  cases hs with
  | start i client now c hi =>
    refine .inr ⟨rfl, unset fun y hy => ?_⟩
    cases hy
    exact Session.not_hasSet_start service client now c
  | turn i x hx => exact .inl ⟨i, x, _, _, hx, Run.step_turn (Prod.eta _).symm, rfl⟩
  | request i x hx hrun hallow hq =>
    exact .inl ⟨i, x, _, _, hx, hrun ▸ turn_request hallow hq, rfl⟩
  | leave i x hx =>
    exact .inr ⟨x.run.tables_abandon _, unset fun y hy => by cases hy⟩
  | disturb d =>
    refine .inr ⟨sys.store.tables_disturb d, ?_⟩
    rintro id p ⟨j, y, hy, hset, hnot⟩
    exact hnot y hy hset

/-- **What a step leaves of what is kept of a password.** -/
theorem Sound.credential_of_step (h : Sound service sys) (hs : Step service sys sys') (id : Int) :
    (∃ p, (∀ q, sys.Sets sys' id q ↔ q = p) ∧
      sys'.store.tables.credential? id = some (.hashed (Password.key p))) ∨
    ((∀ q, ¬sys.Sets sys' id q) ∧
      (sys'.store.tables.credential? id = sys.store.tables.credential? id ∨
        sys'.store.tables.credential? id = none)) := by
  rcases hs.turn_or with ⟨i, x, s', run', hx, ht, rfl⟩ | ⟨htables, hnone⟩
  · rcases h.credential_of_turn hx ht id with ⟨a, p, hopen, ha, hset, hcred⟩ | ⟨hnot, hcred⟩
    · refine .inl ⟨p, fun q => ?_, hcred⟩
      rw [sets_moved_iff hx ht]
      constructor
      · rintro ⟨-, b, hb, hsetb⟩
        cases ha.symm.trans hb
        cases hset.symm.trans hsetb
        rfl
      · rintro rfl
        exact ⟨hopen, a, ha, hset⟩
    · refine .inr ⟨fun q hq => ?_, hcred⟩
      obtain ⟨hopen, a, ha, hset⟩ := (sets_moved_iff hx ht).1 hq
      exact hnot a q hopen ha hset
  · exact .inr ⟨hnone id, .inl (by rw [htables])⟩

/-- **What is kept of an account is the key of the password set last**, as long as
there is the account. -/
theorem LastSet.credential (h : LastSet service id p sys) {u : User}
    (hu : sys.store.tables.users.find? id = some u) :
    u.credential = .hashed (Password.key p) := by
  have hinv : sys.store.tables.credential? id = some (.hashed (Password.key p)) ∨
      sys.store.tables.credential? id = none := by
    clear hu
    induction h with
    | set h hs hset =>
      rcases h.sound.credential_of_step hs id with ⟨q, hq, hcred⟩ | ⟨hnone, -⟩
      · exact .inl ((hq p).1 hset ▸ hcred)
      · exact absurd hset (hnone p)
    | since h hs hnone ih =>
      rcases h.reachable.sound.credential_of_step hs id with ⟨q, hq, -⟩ | ⟨-, hsame | hgone⟩
      · exact absurd ((hq q).2 rfl) (hnone q)
      · exact hsame ▸ ih
      · exact .inr hgone
  rw [credential?, hu] at hinv
  rcases hinv with hcred | hgone
  · exact Option.some.inj hcred
  · cases hgone

/-- **Every account has a password that was set last.** -/
theorem Reachable.exists_lastSet (h : Reachable service sys) {u : User}
    (hu : sys.store.tables.users.find? id = some u) : ∃ p, LastSet service id p sys := by
  have hthere : sys.store.tables.credential? id ≠ none := by simp [credential?, hu]
  clear hu
  induction h with
  | initial => exact absurd rfl hthere
  | step h hs ih =>
    rcases h.sound.credential_of_step hs id with ⟨q, hq, -⟩ | ⟨hnone, hsame | hgone⟩
    · exact ⟨q, .set h hs ((hq q).2 rfl)⟩
    · obtain ⟨p, hp⟩ := ih (hsame ▸ hthere)
      exact ⟨p, .since hp hs hnone⟩
    · exact absurd hgone hthere

end System

/-! ## What a login comes to -/

section Barred

variable {α : Type} {s : Store} {kind : Tables → Prop}

/-- Carried out alone it does not succeed either. -/
theorem Operation.Barred.run_ne_ok {op : Operation α} (h : op.Barred kind) (hk : kind s.tables)
    (client : Client) (a : α) : (op.run client s).2 ≠ some (.ok a) := by
  obtain ⟨js, he⟩ := Operation.reaches_drive client op s
  exact (he.barred hk (.outside h)).1.not_ok a

end Barred

namespace Tables

variable {T : Tables}

/-- No account of the address keeps the key. -/
def Locks (T : Tables) (email : String) (key : List UInt8) : Prop :=
  ∀ u ∈ T.users.toList, u.email = email → u.credential ≠ .hashed key

theorem userByEmail?_eq_some {email : String} {u : User} (h : T.userByEmail? email = some u) :
    u ∈ T.users.toList ∧ u.email = email :=
  ⟨List.mem_of_find?_eq_some h, by simpa using List.find?_some h⟩

/-- Whoever looks for the address of an account finds this account. -/
theorem Consistent.userByEmail?_email (h : T.Consistent) {u : User} (hu : u ∈ T.users.toList) :
    T.userByEmail? u.email = some u := by
  cases hfind : T.userByEmail? u.email with
  | none => exact absurd rfl (Account.userByEmail?_eq_none.1 hfind u hu)
  | some v =>
    obtain ⟨hv, hemail⟩ := userByEmail?_eq_some hfind
    rw [h.email_unique v hv u hu hemail]

end Tables

namespace Account

variable {tokens : TokenService} {now : Nat} {login : Login} {q : String}

/-- What a login comes to with the account that was found. -/
def entry (tokens : TokenService) (now : Nat) (password : String) :
    Option User → Except Failure TokenPair
  | none => .error (.refused .invalidCredentials)
  | some u =>
    match Password.verify password u.credential with
    | .error e => .error (.refused e)
    | .ok true => .ok (tokens.issuePair now u.id)
    | .ok false => .error (.refused .invalidCredentials)

theorem authenticate_eq (tokens : TokenService) (now : Nat) (login : Login) :
    authenticate tokens now login = (single (Plan.ask (.findUserByEmail login.email))).bind
      fun u => .done (entry tokens now login.password u) := by
  change (single (Plan.ask (.findUserByEmail login.email))).bind _ = _
  congr 1
  funext u
  match u with
  | none => rfl
  | some u =>
    change (ofCheck (Password.verify login.password u.credential)).bind _ = .done (entry ..)
    simp only [entry]
    match Password.verify login.password u.credential with
    | .error e => rfl
    | .ok true => rfl
    | .ok false => rfl

theorem entry_hashed {u : User} {k : List UInt8} (hk : u.credential = .hashed k) :
    entry tokens now q (some u) =
      if Password.key q = k then .ok (tokens.issuePair now u.id)
      else .error (.refused .invalidCredentials) := by
  simp only [entry, hk, Password.verify]
  by_cases h : Password.key q = k
  · rw [if_pos h, beq_iff_eq.2 h]
  · rw [if_neg h, beq_eq_false_iff_ne.2 h]

/-- Who gets a pair has a password of the key that is kept. -/
theorem credential_of_entry {u? : Option User} {a : TokenPair}
    (h : entry tokens now q u? = .ok a) :
    ∃ u, u? = some u ∧ u.credential = .hashed (Password.key q) := by
  match u?, h with
  | some u, h =>
    refine ⟨u, rfl, ?_⟩
    cases hcred : u.credential with
    | hashed k =>
      rw [entry_hashed hcred] at h
      split at h
      · next heq => rw [heq]
      · cases h
    | opaqueText s =>
      simp only [entry, hcred, Password.verify] at h
      cases h

/-- A login comes to nothing as long as no account of the address keeps the key of
its password. -/
theorem barred_authenticate :
    (authenticate tokens now login).Barred (·.Locks login.email (Password.key login.password)) := by
  rw [authenticate_eq]
  refine ⟨fun e => barred_error _, fun T hT n ms r he => ?_⟩
  obtain ⟨rfl, rfl⟩ := Prod.mk.inj (Except.ok.inj he)
  refine ⟨rfl, fun a ha => ?_⟩
  obtain ⟨u, hfind, hcred⟩ := credential_of_entry ha
  obtain ⟨hu, hemail⟩ := userByEmail?_eq_some hfind
  exact hT u hu hemail hcred

/-- Whoever is served is answered with what there is at the time. -/
theorem run_authenticate (tokens : TokenService) (now : Nat) (login : Login) {s : Store}
    {client : Client} (hs : s.Serves client) :
    ((authenticate tokens now login).run client s).2 =
      some (entry tokens now login.password (s.tables.userByEmail? login.email)) := by
  have hask : (Plan.ask (.findUserByEmail login.email)).ReadOnly :=
    Plan.readOnly_ask fun _ _ => ⟨_, rfl⟩
  obtain ⟨s', -, hdrive⟩ := Operation.drive_single_bind (α := TokenPair) hask hs
  rw [authenticate_eq, Operation.run, hdrive]
  rfl

end Account

/-! ## What opens an account -/

namespace System

open Json (octets)

variable {service : Service} {sys final : System} {i : Nat} {x : Session} {id : Int} {p : String}

/-- Nobody who logs in with the password gets a pair of tokens. -/
def Refuses (service : Service) (sys : System) (email password : String) : Prop :=
  ∀ now client a,
    ((service.operation now (.authenticate ⟨email, password⟩)).run client sys.store).2 ≠
      some (.ok a)

/-- The system once a session has started to log in. -/
def loggingIn (sys : System) (service : Service) (i : Nat) (client : Client) (now : Nat)
    (login : Login) : System :=
  sys.set sys.store i (some (.start service client now (.authenticate login)))

/-- **Whoever gets a pair had a password of the right key**, in the course of the
login: that of the password that had been set last for the account of the address. -/
theorem Reachable.lastSet_of_login (h : Reachable service sys) {client : Client} {now : Nat}
    {login : Login} (hi : sys.sessions i = none)
    (hf : Relation.ReflTransGen (StepBeside service i) (sys.loggingIn service i client now login)
      final)
    (hx : final.sessions i = some x) {a : x.command.Reply} (ha : x.run.result? = some (.ok a)) :
    ∃ mid u p,
      Relation.ReflTransGen (StepBeside service i) (sys.loggingIn service i client now login) mid ∧
      Relation.ReflTransGen (StepBeside service i) mid final ∧
      mid.store.tables.users.find? u.id = some u ∧ u.email = login.email ∧
      LastSet service u.id p mid ∧ Password.key login.password = Password.key p := by
  by_contra hnone
  -- as no account had a password of this key at any time, the login was barred
  obtain ⟨y, hy, -, hb⟩ := barred_beside Account.barred_authenticate hf fun mid hm hl => by
    intro u hu hemail hcred
    have hmid : Reachable service mid := by
      clear hl hu hnone
      induction hm with
      | refl => exact h.step (.start i client now _ hi)
      | tail _ hs ih => exact ih.step hs.1
    have hfind : mid.store.tables.users.find? u.id = some u := Index.find?_of_mem hu
    obtain ⟨p, hp⟩ := hmid.exists_lastSet hfind
    have hkey := hp.credential hfind
    rw [hcred] at hkey
    exact hnone ⟨mid, u, p, hm, hl, hfind, hemail, hp, Credential.hashed.inj hkey⟩
  cases hx.symm.trans hy
  exact hb.not_ok a ha

/-- The answer to a login of a client that is served. -/
theorem LastSet.answer (h : LastSet service id p sys) {u : User}
    (hu : sys.store.tables.users.find? id = some u) (now : Nat) {client : Client}
    (hs : sys.store.Serves client) (q : String) :
    ((service.operation now (.authenticate ⟨u.email, q⟩)).run client sys.store).2 = some
      (if Password.key q = Password.key p then .ok (service.tokens.issuePair now u.id)
      else .error (.refused .invalidCredentials)) := by
  have hanswer := Account.run_authenticate service.tokens now ⟨u.email, q⟩ hs
  rw [h.reachable.sound.consistent.userByEmail?_email (Index.mem_of_find? hu),
    Account.entry_hashed (h.credential hu)] at hanswer
  exact hanswer

theorem LastSet.refuses (h : LastSet service id p sys) {u : User}
    (hu : sys.store.tables.users.find? id = some u) {q : String}
    (hq : Password.key q ≠ Password.key p) : sys.Refuses service u.email q := by
  intro now client a
  refine Account.barred_authenticate.run_ne_ok (fun v hv hemail hcred => hq ?_) client a
  rw [h.reachable.sound.consistent.email_unique v hv u (Index.mem_of_find? hu) hemail,
    h.credential hu] at hcred
  exact (Credential.hashed.inj hcred).symm

/-- A step that answers a command has set the password that the command sets. -/
theorem LastSet.of_turn (h : Reachable service sys) (hx : sys.sessions i = some x)
    (hopen : x.run.result? = none) {a : x.command.Reply}
    (ha : (x.run.step x.client sys.store).2.result? = some (.ok a))
    (hset : x.command.setPassword? a = some (id, p)) : LastSet service id p (sys.turn i) := by
  unfold turn
  rw [hx]
  refine .set h (.turn i x hx) ?_
  exact (sets_moved_iff hx (Run.step_turn (Prod.eta _).symm)).2 ⟨hopen, a, ha, hset⟩

/-- **What opens an account** whose password is the given one. -/
structure OpenedBy (service : Service) (sys : System) (u : User) (p : String) : Prop where
  /-- Whoever is served gets a pair with a password of the same key, and is refused
  with any other. -/
  answer : ∀ now client q, sys.store.Serves client →
    ((service.operation now (.authenticate ⟨u.email, q⟩)).run client sys.store).2 = some
      (if Password.key q = Password.key p then .ok (service.tokens.issuePair now u.id)
      else .error (.refused .invalidCredentials))
  /-- With a password of another key nobody gets a pair, served or not. -/
  refused : ∀ q, Password.key q ≠ Password.key p → sys.Refuses service u.email q
  /-- Where no octet is zero, the first 72 of them are what counts. -/
  start : 0 ∉ octets p → ∀ q, 0 ∉ octets q →
    (Password.key q = Password.key p ↔ (octets q).take 72 = (octets p).take 72)
  /-- A password of less than 72 octets is the only one. -/
  only : 0 ∉ octets p → (octets p).length < 72 → ∀ q, 0 ∉ octets q → q ≠ p →
    sys.Refuses service u.email q
  /-- Among others, in whatever order the steps are taken, and wherever clients go
  away and faults strike, whoever gets a pair had a password of the same key as
  the one that was set last at some time during the login. -/
  beside : ∀ i now client q final x a, sys.sessions i = none →
    Relation.ReflTransGen (StepBeside service i) (sys.loggingIn service i client now ⟨u.email, q⟩)
      final →
    final.sessions i = some x → x.run.result? = some (.ok a) →
    ∃ mid v p',
      Relation.ReflTransGen (StepBeside service i) (sys.loggingIn service i client now ⟨u.email, q⟩)
        mid ∧
      Relation.ReflTransGen (StepBeside service i) mid final ∧
      mid.store.tables.users.find? v.id = some v ∧ v.email = u.email ∧
      LastSet service v.id p' mid ∧ Password.key q = Password.key p'

/-- **The passwords that open an account are those of the same key** as the one that
was set last, in every system that can come about. -/
theorem LastSet.openedBy (h : LastSet service id p sys) {u : User}
    (hu : sys.store.tables.users.find? id = some u) : sys.OpenedBy service u p where
  answer now _ q hs := h.answer hu now hs q
  refused _ hq := h.refuses hu hq
  start hp _ hq := Password.key_eq_key_iff hq hp
  only hp hlt _ hq hne :=
    h.refuses hu fun heq => hne (Password.eq_of_key_eq hp hq hlt heq.symm).symm
  beside _ _ _ _ _ _ _ hi hf hx ha := h.reachable.lastSet_of_login hi hf hx ha

end System

namespace Sample

/-- Ada opens an account. -/
def opening (password : String) : Registration := ⟨"ada", "ada@example.org", password⟩

/-- The account Ada has opened, and nothing else. -/
def enrolled (password : String) : System :=
  (System.initial.given service 0 client (.register (opening password))).turns (.replicate 4 0)

theorem operation_opening {password : String} (hne : password ≠ "") :
    service.operation 0 (.register (opening password)) =
      .single (Account.registration "ada" "ada@example.org" (.hashed (Password.key password))) := by
  have hemail : Naming.validateEmail "ada@example.org" = .ok () := by decide +kernel
  have hname : Naming.validateName "name" "ada" = .ok () := by decide +kernel
  have hpassword : Naming.validatePassword password = .ok () := by
    simp [Naming.validatePassword, hne]
  have hcheck : Account.checkRegistration (opening password) = .ok () := by
    simp only [Account.checkRegistration, opening, hemail, hname, hpassword]
    rfl
  change (ofCheck (Account.checkRegistration (opening password))).bind _ = _
  rw [hcheck]
  rfl

theorem given_opening {password : String} (hne : password ≠ "") :
    System.initial.given service 0 client (.register (opening password)) =
      System.initial.set .empty 0 (some ⟨client, 0, .register (opening password), .outside (.single
        (Account.registration "ada" "ada@example.org" (.hashed (Password.key password)))),
        none, []⟩) := by
  rw [← operation_opening hne]
  rfl

theorem find?_enrolled {password : String} (hne : password ≠ "") :
    (enrolled password).store.tables.users.find? 1 =
      some ⟨1, "ada", "ada@example.org", .hashed (Password.key password)⟩ := by
  rw [enrolled, given_opening hne]
  rfl

theorem lastSet_enrolled {password : String} (hne : password ≠ "") :
    System.LastSet service 1 password (enrolled password) := by
  -- all but the last step, the commit
  let before : System :=
    (System.initial.given service 0 client (.register (opening password))).turns (.replicate 3 0)
  have hbefore : System.Reachable service before := System.Reachable.initial.given 0 _ _ |>.turns _
  change System.LastSet service 1 password (before.turn 0)
  unfold before at hbefore ⊢
  rw [given_opening hne] at hbefore ⊢
  exact .of_turn hbefore rfl rfl rfl rfl

end Sample

namespace System

open Json (octets)

/-- Ada is let in with her password, and nobody with another one. -/
theorem openedBy_secret :
    LastSet Sample.service 1 "secret" (Sample.enrolled "secret") ∧
      ((Sample.service.operation 0 (.authenticate ⟨"ada@example.org", "secret"⟩)).run Sample.client
        (Sample.enrolled "secret").store).2 = some (.ok (Sample.service.tokens.issuePair 0 1)) ∧
      (Sample.enrolled "secret").Refuses Sample.service "ada@example.org" "Secret" := by
  have hset : LastSet Sample.service 1 "secret" (Sample.enrolled "secret") :=
    Sample.lastSet_enrolled (by decide)
  have hopened := LastSet.openedBy hset (Sample.find?_enrolled (by decide))
  refine ⟨hset, ?_, ?_⟩
  · exact (hopened.answer 0 Sample.client "secret" ⟨rfl, nofun⟩).trans (by rw [if_pos rfl])
  · refine hopened.only ?_ ?_ "Secret" ?_ (by decide)
    all_goals
      rw [Json.octets_eq_written]
      decide +kernel

/-- **A password of more than 72 octets is not the only one**: another one is taken
for it. -/
theorem opened_by_another :
    let p := String.ofList (List.replicate 72 'a' ++ ['b'])
    let q := String.ofList (List.replicate 72 'a')
    q ≠ p ∧ LastSet Sample.service 1 p (Sample.enrolled p) ∧
      (Sample.enrolled p).store.tables.users.find? 1 =
        some ⟨1, "ada", "ada@example.org", .hashed (Password.key p)⟩ ∧
      ((Sample.service.operation 0 (.authenticate ⟨"ada@example.org", q⟩)).run Sample.client
        (Sample.enrolled p).store).2 = some (.ok (Sample.service.tokens.issuePair 0 1)) := by
  intro p q
  have hp : octets p = Json.written (List.replicate 72 'a' ++ ['b']) := Json.octets_ofList _
  have hq : octets q = Json.written (List.replicate 72 'a') := Json.octets_ofList _
  have hne : p ≠ "" := by decide +kernel
  have hkey : Password.key q = Password.key p := by
    refine (Password.key_eq_key_iff ?_ ?_).2 ?_
    · rw [hq]
      decide +kernel
    · rw [hp]
      decide +kernel
    · rw [hp, hq]
      decide +kernel
  have hset : LastSet Sample.service 1 p (Sample.enrolled p) := Sample.lastSet_enrolled hne
  have hserves : (Sample.enrolled p).store.Serves Sample.client := ⟨rfl, nofun⟩
  refine ⟨by decide +kernel, hset, Sample.find?_enrolled hne, ?_⟩
  exact (hset.answer (Sample.find?_enrolled hne) 0 hserves q).trans (by rw [if_pos hkey])

end System

end SharedLedger
