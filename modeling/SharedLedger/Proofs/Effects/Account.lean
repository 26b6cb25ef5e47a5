import SharedLedger.Ledger.Account
import SharedLedger.Proofs.Lawful

/-!
# What accounts do to the tables

Registration takes no lock: the store refuses an address that was taken
meanwhile. Whoever changes or deletes an account has locked it.
-/

namespace SharedLedger

namespace Account

open Tables Plan

variable {t T T' V : Tables} {ids : Stream' Int}

theorem userByEmail?_eq_none {email : String} :
    t.userByEmail? email = none ↔ ∀ v ∈ t.users.toList, v.email ≠ email := by
  simp [userByEmail?]

/-! ## Registration -/

theorem alone_registration {name email : String} {c : Credential} {o : Outcome User} :
    (registration name email c).alone t ids = .ok o ↔
      t.userByEmail? email = none ∧
        t.check (.put (.user ⟨ids.head, name, email, c⟩)) = .ok () ∧
        o = ⟨⟨ids.head, name, email, c⟩, [], [.put (.user ⟨ids.head, name, email, c⟩)],
          t.enact (.put (.user ⟨ids.head, name, email, c⟩)), ids.tail⟩ := by
  refine (alone_query rfl rfl).trans ?_
  simp only [Plan.bind]
  cases h : t.userByEmail? email with
  | some u =>
    constructor
    · intro ho
      exact absurd ho alone_refuse
    · rintro ⟨hn, -⟩
      cases hn
  | none =>
    have hids : (Call.insertUser name email c).idsAfter ids = ids.tail := rfl
    refine (alone_ask_single rfl).trans ?_
    rw [hids]
    simp

theorem lawful_registration (name email : String) (c : Credential) :
    (registration name email c).Lawful True := by
  refine lawful_of_repeats ?_ ?_
  · intro T ids o _ _ ho
    obtain ⟨-, hc, rfl⟩ := alone_registration.1 ho
    exact .single (.putUser _ (.inl (supplied_head ids)) (check_put_user.1 hc))
  · intro V T T' ids o _ _ _ hf ho hr
    obtain ⟨-, -, rfl⟩ := alone_registration.1 ho
    obtain ⟨hc, rfl⟩ := replay_singleton.1 hr
    refine .inl ⟨_, alone_registration.2 ⟨?_, hc, rfl⟩, rfl, rfl⟩
    -- another account of that address would have the id that is still unused
    rw [userByEmail?_eq_none]
    intro v hv he
    have hid : v.id = ids.head := check_put_user.1 hc v hv he
    exact Index.ne_of_contains_eq_false (hf.head_unused .users) hv hid

/-! ## Changes -/

/-- The address that is asked for is free, or the account's own. -/
theorem alone_address {u : User} {email : Option String} {α : Type} {f : String → Plan α}
    {o : Outcome α} :
    ((address u email).bind f).alone t ids = .ok o ↔
      (∀ e, email = some e → e ≠ u.email → t.userByEmail? e = none) ∧
        (f (email.getD u.email)).alone t ids = .ok o := by
  cases email with
  | none =>
    constructor
    · exact fun ho => ⟨fun e he => (by cases he), ho⟩
    · exact And.right
  | some e =>
    refine (alone_query rfl rfl).trans ?_
    simp only [Plan.bind, Bool.and_eq_true, bne_iff_ne]
    split
    · next h =>
      constructor
      · exact fun ho => absurd ho alone_fail
      · rintro ⟨hall, -⟩
        rw [hall e rfl h.1] at h
        cases h.2
    · next h =>
      constructor
      · refine fun ho => ⟨fun e' he' hne => ?_, ho⟩
        cases he'
        by_contra hsome
        exact h ⟨hne, Option.isSome_iff_ne_none.2 hsome⟩
      · exact And.right

/-- The account after a change. -/
def changed (u : User) (update : UserUpdate) (credential : Option Credential) : User :=
  { u with
    name := update.name.getD u.name
    email := update.email.getD u.email
    credential := credential.getD u.credential }

theorem alone_change {id : Int} {update : UserUpdate} {c : Option Credential} {o : Outcome User} :
    (change id update c).alone t ids = .ok o ↔
      ∃ u, t.users.find? id = some u ∧
        (∀ e, update.email = some e → e ≠ u.email → t.userByEmail? e = none) ∧
        t.check (.put (.user (changed u update c))) = .ok () ∧
        o = ⟨changed u update c, [⟨.users, id⟩], [.put (.user (changed u update c))],
          t.enact (.put (.user (changed u update c))), ids⟩ := by
  refine alone_hold.trans ?_
  constructor
  · rintro ⟨-, o', ho', rfl⟩
    obtain ⟨u, hu, ho'⟩ := alone_user.1 ho'
    obtain ⟨hfree, ho'⟩ := alone_address.1 ho'
    obtain ⟨-, t', ht, rfl⟩ := (alone_ask_required rfl).1 ho'
    obtain ⟨hc, rfl⟩ := replay_singleton.1 ht
    exact ⟨u, hu, hfree, hc, rfl⟩
  · rintro ⟨u, hu, hfree, hc, rfl⟩
    have hin : t.users.contains id = true := Index.contains_eq_true_iff.2 ⟨u, hu⟩
    have huid : u.id = id := Index.key_of_find? hu
    have hid : (changed u update c).id = id := huid
    refine ⟨hin, ⟨changed u update c, [], [.put (.user (changed u update c))],
      t.enact (.put (.user (changed u update c))), ids⟩, ?_, rfl⟩
    refine alone_user.2 ⟨u, hu, alone_address.2 ⟨hfree, (alone_ask_required rfl).2 ?_⟩⟩
    exact ⟨by rw [← hid] at hin; exact hin, _, replay_singleton.2 ⟨hc, rfl⟩, rfl⟩

theorem lawful_change (id : Int) (update : UserUpdate) (c : Option Credential) :
    (change id update c).Lawful True := by
  refine lawful_of_repeats ?_ ?_
  · intro T ids o _ _ ho
    obtain ⟨u, hu, -, hc, rfl⟩ := alone_change.1 ho
    have huid : u.id = id := Index.key_of_find? hu
    have hid : (changed u update c).id = id := huid
    refine .single (.putUser _ (.inr ⟨?_, ?_⟩) (check_put_user.1 hc))
    · rw [hid]
      exact List.mem_singleton_self _
    · rw [hid]
      exact Index.contains_eq_true_iff.2 ⟨u, hu⟩
  · intro V T T' ids o hb _ _ _ ho hr
    obtain ⟨u, hu, -, -, rfl⟩ := alone_change.1 ho
    -- the lock keeps the row; that the address is still free is for the store to say
    have hkept : T.users.find? id = V.users.find? id :=
      hb.kept ⟨.users, id⟩ (List.mem_singleton_self _)
    have hu' : T.users.find? id = some u := hkept.trans hu
    obtain ⟨hc, rfl⟩ := replay_singleton.1 hr
    refine .inl ⟨_, alone_change.2 ⟨u, hu', fun e he hne => ?_, hc, rfl⟩, rfl, rfl⟩
    -- only the account itself could have the new address, and it does not
    rw [userByEmail?_eq_none]
    intro v hv hve
    have hnew : (changed u update c).email = e := by simp [changed, he]
    have hid : v.id = u.id := check_put_user.1 hc v hv (hve.trans hnew.symm)
    have hvu : v = u := T.users.eq_of_key_eq hv (Index.mem_of_find? hu') hid
    exact hne (hve.symm.trans (congrArg User.email hvu))

/-! ## Deletion -/

theorem alone_deletion {id : Int} {o : Outcome Unit} :
    (deletion id).alone t ids = .ok o ↔
      t.users.contains id = true ∧
        o = ⟨(), [⟨.users, id⟩], [.unlinkUser id, .delete .users id], dropUser t id, ids⟩ := by
  have hreplay : t.replay [.unlinkUser id, .delete .users id] = .ok (dropUser t id) :=
    replay_cons.2 ⟨rfl, replay_singleton.2 ⟨rfl, rfl⟩⟩
  refine alone_hold.trans ?_
  constructor
  · rintro ⟨hin, o', ho', rfl⟩
    obtain ⟨-, t', ht, rfl⟩ := (alone_ask_required rfl).1 ho'
    rw [hreplay] at ht
    cases ht
    exact ⟨hin, rfl⟩
  · rintro ⟨hin, rfl⟩
    have hrow : t.contains .users id = true := hin
    exact ⟨hin, _, (alone_ask_required rfl).2 ⟨hrow, _, hreplay, rfl⟩, rfl⟩

theorem lawful_deletion (id : Int) : (deletion id).Lawful True := by
  refine lawful_of_repeats ?_ ?_
  · intro T ids o _ _ ho
    obtain ⟨-, rfl⟩ := alone_deletion.1 ho
    exact .single (.dropUser id (List.mem_singleton_self _))
  · intro V T T' ids o hb _ _ _ ho hr
    obtain ⟨hin, rfl⟩ := alone_deletion.1 ho
    have hkept : T.users.find? id = V.users.find? id :=
      hb.kept ⟨.users, id⟩ (List.mem_singleton_self _)
    have hin' : T.users.contains id = true := (Index.contains_congr hkept).trans hin
    exact repeats_of_journal (alone_deletion.2 ⟨hin', rfl⟩) rfl rfl hr

end Account

end SharedLedger
