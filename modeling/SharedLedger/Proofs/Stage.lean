import SharedLedger.Proofs.Guarded
import SharedLedger.Proofs.Turn
import Mathlib.Data.Stream.Init

/-!
# What a transaction knows

An open transaction works on a view of tables that may have changed since. Its
`Stage` says how good the view still is, as long as its locks are respected.
While it looks around, the view itself is old committed tables; once it is at
work, the view is what the plan has made so far of such tables. A stage
survives the steps of the transaction (`Stage.locked`, `Stage.called`) and the
commits of others (`Stage.moved`), and at its end the journal is what the plan
writes alone on the tables it began with (`Stage.concluded`).
-/

namespace SharedLedger

/-- The id a call draws where `n` is the next one. -/
def Call.drawn (c : Call) (n : Int) : List Int := if c.insertsInto?.isSome then [n] else []

open scoped Stream' in
theorem Call.idsAfter_drawn (c : Call) (n : Int) (ids : Stream' Int) :
    c.idsAfter (c.drawn n ++ₛ ids) = ids := by
  unfold idsAfter drawn
  cases c.insertsInto? <;> rfl

open scoped Stream' in
theorem Call.effect_drawn (c : Call) (t : Tables) (n : Int) (ids : Stream' Int) :
    c.effect t (c.drawn n ++ₛ ids).head = c.effect t n := by
  cases hi : c.insertsInto? with
  | some table =>
    unfold drawn
    rw [hi]
    rfl
  | none => exact effect_congr hi ..

namespace Plan

open Tables
open scoped Stream'

variable {α : Type} {V T T' : Tables} {old : Int → Prop} {ls : List RowKey} {key : RowKey}

/-- Old committed tables a transaction goes by, of which all ids are known to
be old. -/
structure Footing (old : Int → Prop) (ls : List RowKey) (V T : Tables) : Prop where
  base : Base ls V T
  known : ∀ table id, V.contains table id = true → old id

theorem Footing.moved {old' new : Int → Prop} {held : RowKey → Prop} (h : Footing old ls V T)
    (hc : Changes new held T T') (hnew : ∀ id, old id → ¬ new id)
    (hother : ∀ key ∈ ls, ¬ held key) (hold : ∀ id, old id → old' id) : Footing old' ls V T' where
  base := h.base.changes hc (fun table id hin => hnew id (h.known table id hin)) hother
  known table id hin := hold id (h.known table id hin)

/-- **What an open transaction knows** of the plan it began with, the committed
tables, the rows it has locked and the ids it has drawn. -/
inductive Stage (body : Plan α) (old : Int → Prop) (T : Tables) (ls : List RowKey) (t : Txn)
    (drawn : List Int) : Plan α → Prop
  /-- It has looked around, on tables that were committed when it got its last
  lock. -/
  | looking {rest : Plan α} (hj : t.journal = []) (hd : drawn = []) (hr : rest.LocksFirst)
      (hp : Path t.view body ls rest) (hf : Footing old ls t.view T) :
      Stage body old T ls t drawn rest
  /-- It asks for no more locks, and does what the whole plan does on tables that
  were committed when it got its last lock. -/
  | working {rest : Plan α} (V : Tables) (hr : rest.Unlocked)
      (hf : rest.Viable t.view → Footing old ls V T)
      (hrun : ∀ ids o, rest.alone t.view ids = .ok o →
        body.alone V (drawn ++ₛ ids) = .ok (o.after ls t.journal)) :
      Stage body old T ls t drawn rest

namespace Stage

variable {body plan rest : Plan α} {t : Txn} {drawn : List Int} {view : Tables}

/-- A transaction starts out knowing all. -/
theorem start (hb : body.Guarded) (hT : T.Consistent)
    (hk : ∀ table id, T.contains table id = true → old id) (id : TxnId) (client : Client) :
    Stage body old T [] ⟨id, client, T, []⟩ [] body := by
  refine .looking rfl rfl hb.locksFirst (.here body) ⟨.refl hT fun key hkey => ?_, hk⟩
  cases hkey

/-- What is left of the plan, begun on the view, does what the whole plan does
on old committed tables. -/
theorem alone_rest (h : Stage body old T ls t drawn rest) :
    ∃ V, (rest.Viable t.view → Footing old ls V T) ∧
      ∀ ids o, rest.alone t.view ids = .ok o →
        body.alone V (drawn ++ₛ ids) = .ok (o.after ls t.journal) := by
  cases h with
  | working V _ hf hrun => exact ⟨V, hf, hrun⟩
  | looking hj hd _ hp hf =>
    refine ⟨t.view, fun _ => hf, fun ids o ho => ?_⟩
    rw [hj, hd, Stream'.nil_append_stream]
    exact hp.alone ho

/-- **A lock brings the view up to date.** -/
theorem locked (hb : body.Guarded) (hT : T.Consistent)
    (hk : ∀ table id, T.contains table id = true → old id)
    (h : Stage body old T ls t drawn (.lock key plan)) (hv : T.replay t.journal = .ok view)
    (hc : view.contains key.table key.id = true) :
    Stage body old T (ls ++ [key]) { t with view } drawn plan := by
  cases h with
  | working _ hr => cases hr
  | looking hj hd hr hp hf =>
    -- nothing was written yet, so the view becomes the committed tables themselves
    rw [hj] at hv
    cases hv
    -- begun again on them, the plan gets here too, or what is left of it must fail
    rcases hb.restarts hp hf.base hc with hp' | ⟨hun, hno⟩
    · have hpath := hp'.locked hc
      exact .looking hj hd hr.of_lock hpath ⟨.refl hT hpath.contains, hk⟩
    · exact .working T hun (fun hyes => absurd hyes hno) fun ids o ho => absurd ⟨ids, o, ho⟩ hno

/-- A lock that is held already changes nothing. -/
theorem held (h : Stage body old T ls t drawn (.lock key plan)) (hkey : key ∈ ls) :
    Stage body old T (ls ++ [key]) t drawn plan := by
  cases h with
  -- at work a plan asks for no more locks
  | working _ hr => cases hr
  | looking hj hd hr hp hf =>
    have hsub : ∀ k ∈ ls ++ [key], k ∈ ls := by
      intro k hk
      rcases List.mem_append.1 hk with hk | hk
      · exact hk
      · exact List.mem_singleton.1 hk ▸ hkey
    exact .looking hj hd hr.of_lock (hp.locked (hf.base.locked_exists key hkey))
      ⟨hf.base.mono hsub, hf.known⟩

/-- What a transaction asks for comes after what it has locked. -/
theorem rank_lt (hb : body.Guarded) (h : Stage body old T ls t drawn (.lock key plan)) :
    ∀ k ∈ ls, k.table.rank < key.table.rank := by
  cases h with
  -- at work a plan asks for no more locks
  | working _ hr => cases hr
  | looking _ _ _ hp _ => exact hb.ascends hp

/-- **A part of a plan that asks for locks begins like a plan of its own**, on tables it
has locked nothing of. -/
theorem part {β : Type} {part : Plan β} {f : β → Plan α}
    (h : Stage body old T ls t drawn (part.bind f)) (hpart : part.Guarded)
    (hasks : ¬ (part.bind f).Unlocked) : Stage part old T [] t [] part := by
  generalize part.bind f = rest at h hasks
  cases h with
  | working _ hr => exact absurd hr hasks
  | looking hj _ _ _ hf =>
    have hnone : ∀ key ∈ ([] : List RowKey), key ∈ ls := fun key hkey => by cases hkey
    exact .looking hj rfl hpart.locksFirst (.here part) ⟨hf.base.mono hnone, hf.known⟩

/-- A call is made with the id that is drawn for it. -/
theorem alone_called {c : Call} {next : c.Reply → Plan α} {n : Int} {ms : List Mutation}
    {r : c.Reply} {ids : Stream' Int} {o : Outcome α} (he : c.effect t.view n = .ok (ms, r))
    (hv : t.view.replay ms = .ok view) (ho : (next r).alone view ids = .ok o) :
    (Plan.call c next).alone t.view (c.drawn n ++ₛ ids) = .ok (o.after [] ms) := by
  refine alone_call.2 ⟨ms, r, view, o, ?_, hv, ?_, rfl⟩
  · rw [Call.effect_drawn]
    exact he
  · rw [Call.idsAfter_drawn]
    exact ho

/-- **A call keeps the transaction where it is.** -/
theorem called {c : Call} {next : c.Reply → Plan α} {n : Int} {ms : List Mutation} {r : c.Reply}
    (h : Stage body old T ls t drawn (.call c next)) (he : c.effect t.view n = .ok (ms, r))
    (hv : t.view.replay ms = .ok view) :
    Stage body old T ls { t with view, journal := t.journal ++ ms } (drawn ++ c.drawn n) (next r) := by
  obtain ⟨V, hf, hrun⟩ := h.alone_rest
  have work (hun : ∀ r, (next r).Unlocked) : Stage body old T ls
      { t with view, journal := t.journal ++ ms } (drawn ++ c.drawn n) (next r) := by
    refine .working V (hun r) (fun ⟨ids, o, ho⟩ => hf ⟨_, _, alone_called he hv ho⟩) ?_
    intro ids o ho
    rw [Stream'.append_append_stream, hrun _ _ (alone_called he hv ho), Outcome.after_after,
      List.append_nil]
  -- looking around ends with the first call that is not a question
  cases h with
  | working _ hr =>
    cases hr with
    | call hun => exact work hun
  | looking hj hd hr hp hf =>
    cases hr with
    | unlocked hr =>
      cases hr with
      | call hun => exact work hun
    | read hi hc hnext =>
      obtain ⟨r', hr'⟩ := hc t.view n
      rw [hr'] at he
      cases he
      cases hv
      refine .looking ?_ ?_ (hnext r) (hp.asked hi fun m => ?_) hf
      · rw [List.append_nil]
        exact hj
      · simp [Call.drawn, hi, hd]
      · rw [Call.effect_congr hi t.view m n]
        exact hr'

/-- **Others may commit meanwhile.** -/
theorem moved {old' new : Int → Prop} {held : RowKey → Prop} (h : Stage body old T ls t drawn rest)
    (hc : Changes new held T T') (hnew : ∀ id, old id → ¬ new id)
    (hother : ∀ key ∈ ls, ¬ held key) (hold : ∀ id, old id → old' id) :
    Stage body old' T' ls t drawn rest := by
  cases h with
  | looking hj hd hr hp hf => exact .looking hj hd hr hp (hf.moved hc hnew hother hold)
  | working V hr hf hrun =>
    exact .working V hr (fun hyes => (hf hyes).moved hc hnew hother hold) hrun

/-- **At its end the transaction has done what its plan does alone**, on tables
that its locks have kept. -/
theorem concluded {a : α} (h : Stage body old T ls t drawn (.done a)) :
    ∃ V, Footing old ls V T ∧ ∀ ids,
      body.alone V (drawn ++ₛ ids) = .ok ⟨a, ls, t.journal, t.view, ids⟩ := by
  obtain ⟨V, hf, hrun⟩ := h.alone_rest
  refine ⟨V, hf ⟨.const 0, _, rfl⟩, fun ids => ?_⟩
  rw [hrun ids _ rfl]
  simp [Outcome.after]

end Stage

end Plan

end SharedLedger
