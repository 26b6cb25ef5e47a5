import SharedLedger.Proofs.Moments

/-!
# Parts of plans

A session carries out a part of its plan, others take their steps in between, and what
the part comes to goes to the rest of the plan (`System.Carries`). At each moment the
session knows what a transaction would know that had begun with the part
(`System.Carries.stands`), so that what is known of whole plans holds of their parts. A
part goes on until it comes to its end or something is refused, whoever takes the next
step (`System.Carries.follows`).
-/

namespace SharedLedger

open Tables

namespace Run

variable {α β γ : Type} {client : Client} {s s' : Store} {run run' : Run γ} {t : Txn} {p : Plan α}
  {f : α → Plan β} {key : RowKey} {X : TxnId}

/-- What is left of the plan of the open transaction. -/
def rest? : Run γ → Option (Σ β : Type, Plan β)
  | outside _ => none
  | inside _ plan _ => some ⟨_, plan⟩
  | waiting _ key plan _ => some ⟨_, .lock key plan⟩

/-- Where a run is in a part of its plan that is followed by `f`: inside its transaction
with the rest of the part next, or waiting for the lock which this rest begins with. -/
inductive At (t : Txn) (f : α → Plan β) : Plan α → Run γ → Prop
  | inside {p : Plan α} {next : Except LedgerError β → Operation γ} :
      At t f p (.inside t (p.bind f) next)
  | waiting {key : RowKey} {p : Plan α} {next : Except LedgerError β → Operation γ} :
      At t f (.lock key p) (.waiting t key (p.bind f) next)

theorem At.txn_eq (h : run.At t f p) : run.txn? = some t := by
  cases h <;> rfl

theorem At.rest_eq (h : run.At t f p) : run.rest? = some ⟨β, p.bind f⟩ := by
  cases h <;> rfl

/-- Only for a lock there is waiting. -/
theorem At.exists_inside (h : run.At t f p) (hne : ∀ key q, p ≠ .lock key q) :
    ∃ next, run = .inside t (p.bind f) next := by
  cases h with
  | inside => exact ⟨_, rfl⟩
  | waiting => exact absurd rfl (hne _ _)

/-- The lock that comes next in the plan may be waited for, if the part is not over. -/
theorem At.ended_or_waiting {δ : Type} {u : Txn} {plan : Plan δ}
    {next : Except LedgerError δ → Operation γ} (h : (Run.inside u (.lock key plan) next).At t f p) :
    (∃ a, p = .done a) ∨ (Run.waiting u key plan next).At t f p := by
  generalize hrest : Plan.lock key plan = rest at h
  cases h with
  | inside =>
    cases p with
    | done a => exact .inl ⟨a, rfl⟩
    | lock key q =>
      cases hrest
      exact .inr .waiting
    | fail | call => cases hrest

/-- A turn in which a run stays where it is in its plan frees no lock. -/
theorem Turn.holder_of_rest_eq (h : Turn client s run s' run') {q : Σ β : Type, Plan β}
    (hrest : run.rest? = some q) (hrest' : run'.rest? = some q) (hk : s.holder? key = some X) :
    s'.holder? key = some X := by
  have same (hq : s'.lockQueue = s.lockQueue) : s'.holder? key = some X :=
    (Store.holder_congr hq key).trans hk
  cases h with
  | finished | refused | opened => cases hrest
  | committed | lost | rolledBack | overflowed => cases hrest'
  | granted | still => exact hk
  | held hb | called _ _ hb => exact same (congrArg Books.lockQueue hb)
  | asked hb | locked hb => exact Store.holder_append (congrArg Books.lockQueue hb) hk
  | failed _ hb => exact same (hb.elim (congrArg Books.lockQueue) (congrArg Books.lockQueue))
  -- a lock that cannot be had ends the plan
  | denied hrun =>
    rcases hrun with rfl | rfl
    · cases hrest.trans hrest'.symm
    · cases hrest.trans hrest'.symm

end Run

namespace Store

variable {s s' : Store} {t t' : Txn} {key : RowKey}

/-- **A lock is got**: with it come the tables of that moment, and no other lock is given
up. -/
structure Grants (s : Store) (t : Txn) (key : RowKey) (t' : Txn) (s' : Store) : Prop where
  tables : s'.tables = s.tables
  kept : ∀ k, s.holder? k = some t.id → s'.holder? k = some t.id
  holder : s'.holder? key = some t.id
  view : ∃ view, s.tables.replay t.journal = .ok view ∧ view.contains key.table key.id = true ∧
    t' = { t with view }

theorem grants_of_awaitLock (h : s.awaitLock t key = (.answered (.ok ()), t', s')) :
    s.Grants t key t' s' := by
  rcases awaitLock_cases h with ⟨hr, -⟩ | ⟨-, rfl, hh, hv⟩ | ⟨⟨e, hr⟩, -⟩
  · cases hr
  · exact ⟨rfl, fun _ hk => hk, hh, hv⟩
  · cases hr

/-- A request for a lock is a turn, whatever comes after it. -/
theorem turn_of_requestLock {reply : LockReply} (h : s.requestLock t key = (reply, t', s')) :
    Run.Turn (α := Unit) t.client s (.inside t (.lock key (.done ())) fun _ => .done (.ok ())) s'
      (Run.afterLock t' key (.done ()) (fun _ => .done (.ok ())) reply) :=
  Run.turn_requestLock h

/-- A request that is new goes to the end of the queue, and the lock is got if nobody else
has asked for it. -/
theorem grants_of_requestLock (h : s.requestLock t key = (.answered (.ok ()), t', s'))
    (hq : (key, t.id) ∉ s.lockQueue) : s.Grants t key t' s' := by
  cases turn_of_requestLock h with
  | held _ hmem => exact absurd hmem hq
  | locked hb _ hh hv hc =>
    have hqueue : s'.lockQueue = s.lockQueue ++ [(key, t.id)] := congrArg Books.lockQueue hb
    exact ⟨congrArg Books.tables hb, fun k hk => holder_append hqueue hk, hh, _, hv, hc, rfl⟩

/-- Who has to wait for a lock knows what it knew. -/
theorem eq_of_requestLock (h : s.requestLock t key = (.queued, t', s')) : t' = t := by
  cases turn_of_requestLock h with
  | asked => rfl

theorem eq_of_awaitLock (h : s.awaitLock t key = (.queued, t', s')) : t' = t := by
  rcases awaitLock_cases h with ⟨-, ht, -⟩ | ⟨hr, -⟩ | ⟨⟨e, hr⟩, -⟩
  · exact ht
  · cases hr
  · cases hr

end Store

namespace System

variable {service : Service} {sys sys' : System} {i : Nat} {x : Session} {α β : Type}
  {part : Plan α} {f : α → Plan β} {t : Txn} {p : Plan α}

/-- **A session carries out a part of its plan**, what it comes to goes to `f`, and others
take their steps meanwhile. By now the transaction is `t`, and `p` is what is left of the
part; where that is `.done a`, the part has come to `a`. -/
inductive Carries (service : Service) (i : Nat) (part : Plan α) (f : α → Plan β) :
    System → Txn → Plan α → Prop
  /-- The part begins. -/
  | called {sys : System} {x : Session} {t : Txn}
      {next : Except LedgerError β → Operation x.command.Reply} (h : Reachable service sys)
      (hx : sys.sessions i = some x) (hrun : x.run = .inside t (part.bind f) next) :
      Carries service i part f sys t part
  /-- A call is answered. -/
  | answered {sys : System} {t t' : Txn} {s : Store} {c : Call} {k : c.Reply → Plan α} {r : c.Reply}
      (h : Carries service i part f sys t (.call c k)) (hcall : sys.store.call t c = (.ok r, t', s)) :
      Carries service i part f (sys.turn i) t' (k r)
  /-- A lock is asked for and got. -/
  | locked {sys : System} {x : Session} {t t' : Txn} {s : Store} {key : RowKey} {p : Plan α}
      {next : Except LedgerError β → Operation x.command.Reply}
      (h : Carries service i part f sys t (.lock key p)) (hx : sys.sessions i = some x)
      (hrun : x.run = .inside t (.lock key (p.bind f)) next)
      (hlock : sys.store.requestLock t key = (.answered (.ok ()), t', s)) :
      Carries service i part f (sys.turn i) t' p
  /-- A lock that was asked for before is got. -/
  | granted {sys : System} {x : Session} {t t' : Txn} {s : Store} {key : RowKey} {p : Plan α}
      {next : Except LedgerError β → Operation x.command.Reply}
      (h : Carries service i part f sys t (.lock key p)) (hx : sys.sessions i = some x)
      (hrun : x.run = .waiting t key (p.bind f) next)
      (hlock : sys.store.awaitLock t key = (.answered (.ok ()), t', s)) :
      Carries service i part f (sys.turn i) t' p
  /-- Others take a step, or a lock is asked for and waited for. -/
  | meanwhile {sys sys' : System} {x : Session} {t : Txn} {p : Plan α}
      (h : Carries service i part f sys t p) (hs : Step service sys sys')
      (hx : sys'.sessions i = some x) (hat : x.run.At t f p) : Carries service i part f sys' t p

/-- **Where a session stands that carries out a part of its plan**: it knows what its
transaction would know if it had begun with the part, and it holds the locks it was given. -/
structure Stands (service : Service) (i : Nat) (part : Plan α) (f : α → Plan β) (sys : System)
    (t : Txn) (p : Plan α) : Prop where
  reachable : Reachable service sys
  session : ∃ x, sys.sessions i = some x ∧ x.run.At t f p
  stage : ∃ ls drawn, Plan.Stage part sys.Old sys.store.tables ls t drawn p ∧
    ∀ key ∈ ls, sys.store.holder? key = some t.id

/-- A part that asks for locks stands at its beginning. -/
theorem Reachable.stands (h : Reachable service sys) (hpart : part.Guarded)
    (hasks : ¬ (part.bind f).Unlocked) (hx : sys.sessions i = some x)
    {next : Except LedgerError β → Operation x.command.Reply}
    (hrun : x.run = .inside t (part.bind f) next) : Stands service i part f sys t part where
  reachable := h
  session := ⟨x, hx, hrun ▸ .inside⟩
  stage := by
    have hs := (h.sound.session i x hx).run
    rw [hrun] at hs
    generalize hrest : part.bind f = rest at hs hasks
    cases hs with
    | failed => exact absurd (.fail _) hasks
    | inside _ _ hstage _ =>
      subst hrest
      exact ⟨[], [], hstage.part hpart hasks, fun key hkey => by cases hkey⟩

/-- The part goes on in a turn of its session. -/
theorem Stands.advance {s : Store} {t' : Txn} {p' : Plan α}
    {next : Except LedgerError β → Operation x.command.Reply} (h : Stands service i part f sys t p)
    (hx : sys.sessions i = some x)
    (hstep : x.run.step x.client sys.store = (s, .inside t' (p'.bind f) next))
    (ht : s.tables = sys.store.tables)
    (hstage : ∃ ls drawn, Plan.Stage part sys.Old sys.store.tables ls t' drawn p' ∧
      ∀ key ∈ ls, s.holder? key = some t'.id) : Stands service i part f (sys.turn i) t' p' := by
  have hs : Step service sys (sys.turn i) := .of_turn hx
  rw [turn_eq hx, hstep] at hs ⊢
  obtain ⟨ls, drawn, hstage, hheld⟩ := hstage
  refine ⟨h.reachable.step hs, ⟨_, set_sessions_self .., .inside⟩, ls, drawn, ?_, hheld⟩
  have hc : Changes (fun _ => False) (fun _ => False) sys.store.tables s.tables := .of_eq ht
  exact hstage.moved hc (fun _ _ => id) (fun _ _ => id) (h.reachable.sound.step_changes hs).old

/-- A call of the part is answered. -/
theorem Stands.answered {c : Call} {k : c.Reply → Plan α} {r : c.Reply} {t' : Txn} {s : Store}
    (h : Stands service i part f sys t (.call c k)) (hcall : sys.store.call t c = (.ok r, t', s)) :
    Stands service i part f (sys.turn i) t' (k r) := by
  obtain ⟨x, hx, hat⟩ := h.session
  obtain ⟨next, hrun⟩ := hat.exists_inside fun key q he => by cases he
  obtain ⟨ls, drawn, hstage, hheld⟩ := h.stage
  obtain ⟨⟨ms, view, he, hv, rfl⟩, hb⟩ := Store.call_eq_ok hcall
  have hstep : x.run.step x.client sys.store =
      (s, .inside { t with view, journal := t.journal ++ ms } ((k r).bind f) next) := by
    rw [hrun]
    simp only [Plan.bind, Run.step, hcall]
  have hq : s.lockQueue = sys.store.lockQueue := congrArg Books.lockQueue hb
  exact h.advance hx hstep (congrArg Books.tables hb) ⟨ls, _, hstage.called he hv, fun key hkey =>
    (Store.holder_congr hq key).trans (hheld key hkey)⟩

/-- A lock of the part is got. -/
theorem Stands.locked {key : RowKey} {t' : Txn} {s : Store}
    {next : Except LedgerError β → Operation x.command.Reply} (hpart : part.Guarded)
    (h : Stands service i part f sys t (.lock key p)) (hx : sys.sessions i = some x)
    (hstep : x.run.step x.client sys.store = (s, .inside t' (p.bind f) next))
    (hg : sys.store.Grants t key t' s) : Stands service i part f (sys.turn i) t' p := by
  obtain ⟨ls, drawn, hstage, hheld⟩ := h.stage
  obtain ⟨view, hv, hc, rfl⟩ := hg.view
  have hsound := h.reachable.sound
  refine h.advance hx hstep hg.tables ⟨ls ++ [key], drawn,
    hstage.locked hpart hsound.consistent hsound.known hv hc, fun k hk => ?_⟩
  rcases List.mem_append.1 hk with hk | hk
  · exact hg.kept k (hheld k hk)
  · exact List.mem_singleton.1 hk ▸ hg.holder

/-- Others take a step, or the session waits for a lock. -/
theorem Stands.meanwhile {x' : Session} (h : Stands service i part f sys t p)
    (hs : Step service sys sys') (hx' : sys'.sessions i = some x') (hat' : x'.run.At t f p) :
    Stands service i part f sys' t p := by
  obtain ⟨x, hx, hat⟩ := h.session
  obtain ⟨ls, drawn, hstage, hheld⟩ := h.stage
  have halters := h.reachable.sound.step_changes hs
  obtain ⟨new, held, hc, hnew, hother⟩ := halters.beside hheld ⟨i, x', t, hx', hat'.txn_eq, rfl⟩
  refine ⟨h.reachable.step hs, ⟨x', hx', hat'⟩, ls, drawn,
    hstage.moved hc hnew hother halters.old, fun key hkey => ?_⟩
  rcases h.reachable.sound.session_cases hs hx' with ⟨-, hkeeps⟩ | ⟨hnone, -⟩ | ⟨y, run', hy, ht, rfl⟩
  · exact hkeeps t hat'.txn_eq key (hheld key hkey)
  · cases hx.symm.trans hnone
  · cases hx.symm.trans hy
    exact ht.holder_of_rest_eq hat.rest_eq hat'.rest_eq (hheld key hkey)

/-- **A session that carries out a part stands where the part does.** -/
theorem Carries.stands (h : Carries service i part f sys t p) (hpart : part.Guarded)
    (hasks : ¬ (part.bind f).Unlocked) : Stands service i part f sys t p := by
  induction h with
  | called h hx hrun => exact h.stands hpart hasks hx hrun
  | answered _ hcall ih => exact ih.answered hcall
  | @locked sys x t t' s key p next _ hx hrun hlock ih =>
    have hstep : x.run.step x.client sys.store = (s, .inside t' (p.bind f) next) := by
      rw [hrun]
      simp only [Run.step, hlock, Run.afterLock]
    -- the row was not asked for before, as ranks go up
    refine ih.locked hpart hx hstep (Store.grants_of_requestLock hlock fun hq => ?_)
    exact lt_irrefl _ (ih.reachable.sound.rank_lt_of_lock hx hrun hq)
  | @granted sys x t t' s key p next _ hx hrun hlock ih =>
    have hstep : x.run.step x.client sys.store = (s, .inside t' (p.bind f) next) := by
      rw [hrun]
      simp only [Run.step, hlock, Run.afterLock]
    exact ih.locked hpart hx hstep (Store.grants_of_awaitLock hlock)
  | meanwhile _ hs hx hat ih => exact ih.meanwhile hs hx hat

/-- **What becomes of a part in one step** that leaves its session in a transaction. -/
inductive Follows (service : Service) (i : Nat) (part : Plan α) (f : α → Plan β) (sys' : System)
    (x : Session) : Plan α → Prop
  /-- It had come to its end. -/
  | ended (a : α) : Follows service i part f sys' x (.done a)
  /-- It goes on. -/
  | goesOn {p q : Plan α} {u : Txn} (hu : x.run.txn? = some u) (h : Carries service i part f sys' u q) :
      Follows service i part f sys' x p
  /-- A call or a lock was refused, and the transaction is to be rolled back. -/
  | refused {p : Plan α} {e : LedgerError} (h : x.run.rest? = some ⟨β, .fail (.refused e)⟩) :
      Follows service i part f sys' x p

/-- The answer to a request for a lock. -/
theorem Carries.follows_lock {key : RowKey} (h : Carries service i part f sys t (.lock key p))
    (hs : Step service sys sys') (hx : sys'.sessions i = some x) {t' : Txn} {reply : LockReply}
    {next : Except LedgerError β → Operation x.command.Reply}
    (hrun : x.run = Run.afterLock t' key (p.bind f) next reply) (hqueued : reply = .queued → t' = t)
    (hgot : reply = .answered (.ok ()) → Carries service i part f sys' t' p) :
    Follows service i part f sys' x (.lock key p) := by
  cases reply with
  | queued =>
    obtain rfl := hqueued rfl
    exact .goesOn (congrArg Run.txn? hrun) (h.meanwhile hs hx (hrun ▸ .waiting))
  | answered r =>
    cases r with
    | ok => exact .goesOn (congrArg Run.txn? hrun) (hgot rfl)
    | error e => exact .refused (congrArg Run.rest? hrun)

/-- The session of the part takes a turn. -/
theorem Carries.follows_turn {y : Session} (h : Carries service i part f sys t p)
    (hx : sys.sessions i = some x) (hat : x.run.At t f p) (hy : (sys.turn i).sessions i = some y)
    (hopen : y.run.txn? ≠ none) : Follows service i part f (sys.turn i) y p := by
  have hs : Step service sys (sys.turn i) := .of_turn hx
  obtain ⟨rfl⟩ : some (x.moved sys.store _ _) = some y := by
    rw [← hy, turn_eq hx, set_sessions_self]
  obtain ⟨client, now, c, run, opened, drawn⟩ := x
  dsimp only [Session.moved] at hopen hy hat
  cases hat with
  | @inside p next =>
    cases p with
    | done a => exact .ended a
    | fail e => cases e <;> exact absurd rfl hopen
    | lock key q =>
      refine h.follows_lock hs hy rfl (fun hq => ?_) fun hr => h.locked hx rfl (Prod.ext hr rfl)
      exact Store.eq_of_requestLock (Prod.ext hq rfl)
    | call c k =>
      rcases hcall : sys.store.call t c with ⟨e | r, t', s⟩
      · have hstep : ((Run.inside t ((Plan.call c k).bind f) next).step client sys.store).2 =
            .inside t' (.fail (.refused e)) next := by
          simp only [Plan.bind, Run.step, hcall]
        exact .refused (congrArg Run.rest? hstep)
      · have hstep : ((Run.inside t ((Plan.call c k).bind f) next).step client sys.store).2 =
            .inside t' ((k r).bind f) next := by
          simp only [Plan.bind, Run.step, hcall]
        exact .goesOn (congrArg Run.txn? hstep) (h.answered hcall)
  | @waiting key q next =>
    refine h.follows_lock hs hy rfl (fun hq => ?_) fun hr => h.granted hx rfl (Prod.ext hr rfl)
    exact Store.eq_of_awaitLock (Prod.ext hq rfl)

/-- **A part that is carried out goes on**, whoever takes the next step, until it comes to
its end or something is refused. -/
theorem Carries.follows (h : Carries service i part f sys t p) (hpart : part.Guarded)
    (hasks : ¬ (part.bind f).Unlocked) (hs : Step service sys sys') (hx : sys'.sessions i = some x)
    (hopen : x.run.txn? ≠ none) : Follows service i part f sys' x p := by
  obtain ⟨y, hy, hat⟩ := (h.stands hpart hasks).session
  have beside (hsame : sys'.sessions i = sys.sessions i) : Follows service i part f sys' x p := by
    obtain ⟨rfl⟩ : some y = some x := by rw [← hy, ← hsame, hx]
    exact .goesOn hat.txn_eq (h.meanwhile hs hx hat)
  cases id hs with
  | start j client now c hj =>
    refine beside (set_sessions_of_ne ?_ ..)
    rintro rfl
    cases hy.symm.trans hj
  | turn j z hz =>
    by_cases hij : i = j
    · subst hij
      cases hy.symm.trans hz
      rw [← turn_eq hy] at hx ⊢
      exact h.follows_turn hy hat hx hopen
    · exact beside (set_sessions_of_ne hij ..)
  | request j z hz hrun hallow hq =>
    by_cases hij : i = j
    · subst hij
      cases hy.symm.trans hz
      rw [hrun] at hat
      rw [set_sessions_self] at hx
      rcases hat.ended_or_waiting with ⟨a, rfl⟩ | hat'
      · exact .ended a
      · cases hx
        exact .goesOn hat'.txn_eq (h.meanwhile hs (set_sessions_self ..) hat')
    · exact beside (set_sessions_of_ne hij ..)
  | leave j z hz =>
    refine beside (set_sessions_of_ne ?_ ..)
    rintro rfl
    rw [set_sessions_self] at hx
    cases hx
  | disturb d => exact beside rfl

end System

end SharedLedger
