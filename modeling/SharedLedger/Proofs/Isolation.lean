import SharedLedger.Proofs.Sound

/-!
# Isolation

Every system that can come about is sound (`System.Reachable.sound`). A step
exchanges one session, and `System.Sound.set` says what has to be seen to when
that happens, whatever kind of step it is. It follows that the committed
tables are consistent at all times, and that a commit does what its
transaction would do alone on the tables it is committed to, so commands that
run side by side do not get in each other's way.
-/

namespace SharedLedger

open Tables
open scoped Stream'

namespace System

/-- An id that was drawn and is not in the hands of an open transaction. -/
def Old (sys : System) (id : Int) : Prop :=
  id < sys.store.nextId ∧ ∀ i x, sys.sessions i = some x → id ∉ x.drawn

end System

/-- What holds of a single session. -/
structure Session.Sound (service : Service) (sys : System) (x : Session) : Prop where
  txn_lt : ∀ t, x.run.txn? = some t → t.id < sys.store.nextTxn
  drawn_lt : ∀ id ∈ x.drawn, id < sys.store.nextId
  drawn_ascending : x.drawn.Pairwise (· < ·)
  drawn_nil : x.run.txn? = none → x.drawn = []
  run : x.run.Sound (service.operation x.now x.command) sys.Old sys.store x.opened x.drawn

/-- Two sessions have transactions of their own, and ids of their own. -/
structure Session.Apart (x y : Session) : Prop where
  txn : ∀ t u, x.run.txn? = some t → y.run.txn? = some u → t.id ≠ u.id
  drawn : ∀ id ∈ x.drawn, id ∉ y.drawn

theorem Session.Apart.symm {x y : Session} (h : x.Apart y) : y.Apart x where
  txn t u ht hu he := h.txn u t hu ht he.symm
  drawn id hy hx := h.drawn id hx hy

namespace System

/-- **The invariant of commands side by side.** -/
structure Sound (service : Service) (sys : System) : Prop where
  consistent : sys.store.tables.Consistent
  known : ∀ table id, sys.store.tables.contains table id = true → sys.Old id
  request_lt : ∀ r ∈ sys.store.lockQueue, r.2 < sys.store.nextTxn
  session : ∀ i x, sys.sessions i = some x → x.Sound service sys
  apart : ∀ i j x y, i ≠ j → sys.sessions i = some x → sys.sessions j = some y → x.Apart y

variable {service : Service} {sys sys' : System} {i : Nat} {x : Session}

theorem sound_initial : Sound service .initial where
  consistent := consistent_empty
  known table id hin := by cases table <;> cases hin
  request_lt r hr := by cases hr
  session i x hx := by cases hx
  apart i j x y _ hx := by cases hx

/-- Ids stay old where one session is exchanged for another that has only drawn
new ones. -/
theorem Old.set {s' : Store} {ox : Option Session} {id : Int} (h : sys.Old id)
    (hn : sys.store.nextId ≤ s'.nextId) (hdrawn : ∀ x, ox = some x → ∀ k ∈ x.drawn, ¬ sys.Old k) :
    (sys.set s' i ox).Old id := by
  refine ⟨lt_of_lt_of_le h.1 hn, fun j y hy => ?_⟩
  by_cases hji : j = i
  · subst hji
    rw [set_sessions_self] at hy
    exact fun hid => hdrawn y hy id hid h
  · rw [set_sessions_of_ne hji] at hy
    exact h.2 j y hy

/-- **Exchanging one session.** The others do not notice, as long as nobody
takes their locks or their ids. -/
theorem Sound.set (h : Sound service sys) {s' : Store} {ox : Option Session} {new : Int → Prop}
    {held : RowKey → Prop} {j : TxnId} (hnextId : sys.store.nextId ≤ s'.nextId)
    (hnextTxn : sys.store.nextTxn ≤ s'.nextTxn)
    (hrequests : ∀ r ∈ s'.lockQueue, r.2 < s'.nextTxn)
    (hl : sys.store.LeavesOthers s' j)
    (hj : ∀ k y t, k ≠ i → sys.sessions k = some y → y.run.txn? = some t → t.id ≠ j)
    (hc : Changes new held sys.store.tables s'.tables) (hnew : ∀ id, sys.Old id → ¬ new id)
    (hheld : ∀ key, held key → sys.store.holder? key = some j)
    (hknown : ∀ table id, s'.tables.contains table id = true → (sys.set s' i ox).Old id)
    (hdrawn : ∀ x, ox = some x → ∀ id ∈ x.drawn, ¬ sys.Old id)
    (hmine : ∀ x, ox = some x → x.Sound service (sys.set s' i ox))
    (hapart : ∀ x, ox = some x → ∀ k y, k ≠ i → sys.sessions k = some y → x.Apart y) :
    Sound service (sys.set s' i ox) where
  consistent := hc.consistent h.consistent
  known := hknown
  request_lt := hrequests
  session k y hy := by
    -- the session that was exchanged answers for itself; the others have to be kept
    by_cases hk : k = i
    · subst hk
      rw [set_sessions_self] at hy
      exact hmine y hy
    · rw [set_sessions_of_ne hk] at hy
      have hs := h.session k y hy
      refine
      { txn_lt := fun t ht => Nat.lt_of_lt_of_le (hs.txn_lt t ht) hnextTxn
        drawn_lt := fun id hid => lt_of_lt_of_le (hs.drawn_lt id hid) hnextId
        drawn_ascending := hs.drawn_ascending
        drawn_nil := hs.drawn_nil
        run := ?_ }
      refine hs.run.moved (fun t ht => ⟨j, hj k y t hk hy ht, hl⟩) hc hnew (fun t ht key hkey hh => ?_)
        fun id hid => hid.set hnextId hdrawn
      -- a row cannot be locked by two transactions
      rw [hheld key hh] at hkey
      exact hj k y t hk hy ht (Option.some.inj hkey).symm
  apart k l y z hne hy hz := by
    by_cases hk : k = i
    · subst hk
      rw [set_sessions_self] at hy
      rw [set_sessions_of_ne hne.symm] at hz
      exact hapart y hy l z hne.symm hz
    · rw [set_sessions_of_ne hk] at hy
      by_cases hli : l = i
      · subst hli
        rw [set_sessions_self] at hz
        exact (hapart z hz k y hk hy).symm
      · rw [set_sessions_of_ne hli] at hz
        exact h.apart k l y z hne hy hz

/-- Exchanging one session while the tables stay what they are. -/
theorem Sound.set_of_tables_eq (h : Sound service sys) {s' : Store} {ox : Option Session} {j : TxnId}
    (ht : s'.tables = sys.store.tables) (hnextId : sys.store.nextId ≤ s'.nextId)
    (hnextTxn : sys.store.nextTxn ≤ s'.nextTxn)
    (hrequests : ∀ r ∈ s'.lockQueue, r.2 < s'.nextTxn)
    (hl : sys.store.LeavesOthers s' j)
    (hj : ∀ k y t, k ≠ i → sys.sessions k = some y → y.run.txn? = some t → t.id ≠ j)
    (hdrawn : ∀ x, ox = some x → ∀ id ∈ x.drawn, ¬ sys.Old id)
    (hmine : ∀ x, ox = some x → x.Sound service (sys.set s' i ox))
    (hapart : ∀ x, ox = some x → ∀ k y, k ≠ i → sys.sessions k = some y → x.Apart y) :
    Sound service (sys.set s' i ox) := by
  have hc : Changes (fun _ => False) (fun _ => False) sys.store.tables s'.tables := .of_eq ht
  refine h.set hnextId hnextTxn hrequests hl hj hc (fun _ _ h => h) (fun _ h => h.elim) ?_ hdrawn
    hmine hapart
  intro table id hin
  rw [ht] at hin
  exact (h.known table id hin).set hnextId hdrawn

/-! ## The kinds of steps -/

/-- Every open transaction has a name that was given out. -/
theorem Sound.ne_nextTxn (h : Sound service sys) :
    ∀ k y t, k ≠ i → sys.sessions k = some y → y.run.txn? = some t → t.id ≠ sys.store.nextTxn :=
  fun k y t _ hy ht => Nat.ne_of_lt ((h.session k y hy).txn_lt t ht)

/-- Other sessions have other transactions. -/
theorem Sound.txn_ne (h : Sound service sys) (hx : sys.sessions i = some x) {t : Txn}
    (ht : x.run.txn? = some t) :
    ∀ k y u, k ≠ i → sys.sessions k = some y → y.run.txn? = some u → u.id ≠ t.id :=
  fun k y u hk hy hu => (h.apart k i y x hk hy hx).txn u t hu ht

theorem Sound.start (h : Sound service sys) (client : Client) (now : Nat) (c : Command) :
    Sound service (sys.set sys.store i (some (.start service client now c))) := by
  refine h.set_of_tables_eq rfl le_rfl le_rfl h.request_lt (.of_lockQueue_eq rfl) h.ne_nextTxn ?_ ?_ ?_
  · rintro _ ⟨⟩ id hid
    cases hid
  · rintro _ ⟨⟩
    exact
    { txn_lt := fun t ht => by cases ht
      drawn_lt := fun id hid => by cases hid
      drawn_ascending := .nil
      drawn_nil := fun _ => rfl
      run := .outside .start }
  · rintro _ ⟨⟩ k y _ _
    exact
    { txn := fun t u ht => by cases ht
      drawn := fun id hid => by cases hid }

theorem Sound.leave (h : Sound service sys) (hx : sys.sessions i = some x) :
    Sound service (sys.set (x.run.abandon sys.store) i none) := by
  unfold Run.abandon
  -- whoever leaves gives up its locks, and nobody uses the ids it drew
  cases ht : x.run.txn? with
  | none =>
    refine h.set_of_tables_eq rfl le_rfl le_rfl h.request_lt (.of_lockQueue_eq rfl) h.ne_nextTxn ?_ ?_
      ?_ <;> exact fun y hy => by cases hy
  | some t =>
    refine h.set_of_tables_eq rfl le_rfl le_rfl (fun r hr => ?_)
      (Store.leavesOthers_release sys.store t) (h.txn_ne hx ht) ?_ ?_ ?_
    · exact h.request_lt r (List.mem_filter.1 hr).1
    all_goals exact fun y hy => by cases hy

theorem Sound.disturb (h : Sound service sys) (d : Disturbance) :
    Sound service { sys with store := sys.store.disturb d } := by
  have hb := sys.store.books_disturb d
  have htables : (sys.store.disturb d).tables = sys.store.tables := congrArg Books.tables hb
  have hids : (sys.store.disturb d).nextId = sys.store.nextId := congrArg Books.nextId hb
  have htxns : (sys.store.disturb d).nextTxn = sys.store.nextTxn := congrArg Books.nextTxn hb
  have hqueue : (sys.store.disturb d).lockQueue = sys.store.lockQueue := congrArg Books.lockQueue hb
  have hold : ∀ id, sys.Old id → System.Old { sys with store := sys.store.disturb d } id :=
    fun id hid => ⟨hids.symm ▸ hid.1, hid.2⟩
  have hc : Changes (fun _ => False) (fun _ => False) sys.store.tables (sys.store.disturb d).tables :=
    .of_eq htables
  exact
  { consistent := htables.symm ▸ h.consistent
    known := fun table id hin => hold id (h.known table id (htables ▸ hin))
    request_lt := fun r hr => htxns.symm ▸ h.request_lt r (hqueue ▸ hr)
    session := fun k y hy =>
      have hs := h.session k y hy
      { txn_lt := fun t ht => htxns.symm ▸ hs.txn_lt t ht
        drawn_lt := fun id hid => hids.symm ▸ hs.drawn_lt id hid
        drawn_ascending := hs.drawn_ascending
        drawn_nil := hs.drawn_nil
        run := hs.run.moved
          (fun t _ => ⟨t.id + 1, (Nat.succ_ne_self t.id).symm, .of_lockQueue_eq hqueue⟩) hc
          (fun _ _ h => h) (fun _ _ _ _ h => h) hold }
    apart := h.apart }

/-- What a step leaves noted of the ids drawn is new to the old ones. -/
theorem not_old_noteDrawn (hx : sys.sessions i = some x) {s' : Store}
    {run' : Run x.command.Reply} :
    ∀ y, some (x.moved sys.store s' run') = some y → ∀ id ∈ y.drawn, ¬ sys.Old id := by
  rintro _ ⟨⟩ id hid hold
  rcases Run.mem_noteDrawn hid with hid | ⟨rfl, -⟩
  · exact hold.2 i x hx hid
  · exact lt_irrefl _ hold.1

/-- The session that takes the step stays apart from the others. -/
theorem Sound.apart_moved (h : Sound service sys) (hx : sys.sessions i = some x) {s' : Store}
    {run' : Run x.command.Reply} (ht : Run.Turn x.client sys.store x.run s' run') :
    ∀ z, some (x.moved sys.store s' run') = some z → ∀ k y, k ≠ i → sys.sessions k = some y →
      z.Apart y := by
  rintro _ ⟨⟩ k y hk hy
  have hapart := h.apart i k x y hk.symm hx hy
  have hs := h.session k y hy
  constructor
  · intro t' u ht' hu
    rcases ht.txn_eq_or ht' with ⟨t, ht, hid⟩ | ⟨hid, -⟩
    · rw [← hid]
      exact hapart.txn t u ht hu
    · rw [hid]
      exact (Nat.ne_of_lt (hs.txn_lt u hu)).symm
  · intro id hid
    rcases Run.mem_noteDrawn hid with hid | ⟨rfl, -⟩
    · exact hapart.drawn id hid
    · exact fun hy => lt_irrefl _ (hs.drawn_lt _ hy)

/-- The session that takes the step stays sound. -/
theorem Sound.session_moved (h : Sound service sys) (hx : sys.sessions i = some x) {s' : Store}
    {run' : Run x.command.Reply} (ht : Run.Turn x.client sys.store x.run s' run') :
    ∀ y, some (x.moved sys.store s' run') = some y →
      y.Sound service (sys.set s' i (some (x.moved sys.store s' run'))) := by
  rintro _ ⟨⟩
  have hs := h.session i x hx
  have hn : sys.store.nextId ≤ s'.nextId := by rcases ht.nextId_eq_or with hn | hn <;> omega
  have hrun := hs.run.turn (service.lawful_operation x.now x.command) h.consistent h.known
    h.request_lt hs.drawn_nil ht
  refine
  { txn_lt := fun t' ht' => ?_
    drawn_lt := fun id hid => ?_
    drawn_ascending := Run.ascending_noteDrawn hs.drawn_ascending hs.drawn_lt
    drawn_nil := fun hnone => ?_
    run := hrun.mono fun id hid => hid.set hn (not_old_noteDrawn hx) }
  · rcases ht.txn_eq_or ht' with ⟨t, ht₀, hid⟩ | ⟨hid, hnew⟩
    · rw [← hid]
      exact Nat.lt_of_lt_of_le (hs.txn_lt t ht₀) ht.nextTxn_le
    · rw [hid, set_store, hnew]
      exact Nat.lt_succ_self _
  · rcases Run.mem_noteDrawn hid with hid | ⟨rfl, hne⟩
    · exact lt_of_lt_of_le (hs.drawn_lt id hid) hn
    · exact lt_of_le_of_ne hn hne.symm
  · have hnone' : run'.txn? = none := hnone
    simp [Session.moved, Run.noteDrawn, hnone']

/-- A step puts off nobody but the transaction that takes it. -/
theorem Sound.exists_leavesOthers (h : Sound service sys) (hx : sys.sessions i = some x) {s' : Store}
    {run' : Run x.command.Reply} (ht : Run.Turn x.client sys.store x.run s' run') :
    ∃ j, sys.store.LeavesOthers s' j ∧ (∀ t, x.run.txn? = some t → t.id = j) ∧
      ∀ k y t, k ≠ i → sys.sessions k = some y → y.run.txn? = some t → t.id ≠ j := by
  cases hxt : x.run.txn? with
  | none => exact ⟨_, ht.leavesOthers (by simp [hxt]), by simp, h.ne_nextTxn⟩
  | some t =>
    have hid : ∀ u, x.run.txn? = some u → u.id = t.id := by simp [hxt]
    exact ⟨t.id, ht.leavesOthers hid, by simp, h.txn_ne hx hxt⟩

/-- Only transactions that were opened have asked for locks. -/
theorem Sound.request_lt_turn (h : Sound service sys) (hx : sys.sessions i = some x) {s' : Store}
    {run' : Run x.command.Reply} (ht : Run.Turn x.client sys.store x.run s' run') :
    ∀ r ∈ s'.lockQueue, r.2 < s'.nextTxn := by
  intro r hr
  refine Nat.lt_of_lt_of_le ?_ ht.nextTxn_le
  cases hxt : x.run.txn? with
  | none =>
    -- without a transaction nothing is asked for, in nobody's name
    have hl : sys.store.LeavesOthers s' (r.2 + 1) := ht.leavesOthers (by simp [hxt])
    exact h.request_lt r ((hl.request r hr).resolve_right (Nat.succ_ne_self r.2).symm)
  | some t =>
    have hl : sys.store.LeavesOthers s' t.id := ht.leavesOthers (by simp [hxt])
    rcases hl.request r hr with hr | hid
    · exact h.request_lt r hr
    · exact hid ▸ (h.session i x hx).txn_lt t hxt

/-- **What the commit of a session does**: it changes the tables under the locks of
its transaction, with ids it has drawn, and as its plan would alone. -/
theorem Sound.committed (h : Sound service sys) (hx : sys.sessions i = some x) {β : Type} {t : Txn}
    {a : β} {next : Except LedgerError β → Operation x.command.Reply}
    (hrun : x.run = .inside t (.done a) next) {T' : Tables}
    (hv : sys.store.tables.replay t.journal = .ok T') :
    ∃ body : Plan β, (service.operation x.now x.command).Leads (.transaction body next) ∧
      Changes (Supplied (x.drawn ++ₛ idsFrom sys.store.nextId))
        (fun key => sys.store.holder? key = some t.id) sys.store.tables T' ∧
      (x.command.Explicit →
        body.tablesAfter sys.store.tables (x.drawn ++ₛ idsFrom sys.store.nextId) = T') := by
  have hs := h.session i x hx
  have hsound := hrun ▸ hs.run
  obtain ⟨body, -, hl, hc, hexact⟩ := hsound.commit (service.lawful_operation x.now x.command)
    h.consistent hs.drawn_ascending hs.drawn_lt (fun id hid => ⟨hid.1, hid.2 i x hx⟩) h.known hv
  exact ⟨body, hl, hc, hexact⟩

/-- What a session has drawn and may yet draw is fresh for tables of which all ids
are old. -/
theorem Sound.fresh (h : Sound service sys) (hx : sys.sessions i = some x) {T : Tables}
    (hold : ∀ table id, T.contains table id = true → sys.Old id) :
    Fresh (x.drawn ++ₛ idsFrom sys.store.nextId) T := by
  have hs := h.session i x hx
  exact fresh_append hs.drawn_ascending hs.drawn_lt fun table id hin =>
    ⟨(hold table id hin).1, (hold table id hin).2 i x hx⟩

/-- The ids to come are fresh for the committed tables. -/
theorem Sound.fresh_next (h : Sound service sys) :
    Fresh (idsFrom sys.store.nextId) sys.store.tables := by
  refine fresh_append .nil (fun _ hid => (by cases hid)) fun table id hin => ?_
  exact ⟨(h.known table id hin).1, List.not_mem_nil⟩

/-- What a session may yet use as ids is not old. -/
theorem not_supplied (hx : sys.sessions i = some x) {id : Int}
    (hid : sys.Old id) : ¬ Supplied (x.drawn ++ₛ idsFrom sys.store.nextId) id := by
  intro hsup
  rcases supplied_append_iff.1 hsup with hd | hle
  · exact hid.2 i x hx hd
  · exact absurd (lt_of_lt_of_le hid.1 hle) (lt_irrefl id)

/-- **A commit keeps the ids apart**: what is in the tables after it is old. -/
theorem Sound.old_of_commit (h : Sound service sys) (hx : sys.sessions i = some x) {s' : Store}
    {run' : Run x.command.Reply} {β : Type} {t : Txn} {a : β}
    {next : Except LedgerError β → Operation x.command.Reply} (hrun : x.run = .inside t (.done a) next)
    (hnone : run'.txn? = none) (hn : sys.store.nextId ≤ s'.nextId)
    (hv : sys.store.tables.replay t.journal = .ok s'.tables) {table : Table} {id : Int}
    (hin : s'.tables.contains table id = true) :
    (sys.set s' i (some (x.moved sys.store s' run'))).Old id := by
  have hs := h.session i x hx
  have hsound := hrun ▸ hs.run
  -- the supply after the drawn ids may begin anywhere, so it has no part in this
  have hlt : ∀ k ∈ x.drawn, k < max sys.store.nextId (id + 1) :=
    fun k hk => lt_max_of_lt_left (hs.drawn_lt k hk)
  obtain ⟨_, -, -, hc, -⟩ := hsound.commit (service.lawful_operation x.now x.command) h.consistent
    hs.drawn_ascending hlt (fun k hk => ⟨lt_max_of_lt_left hk.1, hk.2 i x hx⟩) h.known hv
  rcases hc.contains hin with hsup | hin
  · rcases supplied_append_iff.1 hsup with hid | hle
    · refine ⟨lt_of_lt_of_le (hs.drawn_lt id hid) hn, fun k y hy => ?_⟩
      by_cases hk : k = i
      · subst hk
        rw [set_sessions_self] at hy
        cases hy
        simp [Session.moved, Run.noteDrawn, hnone]
      · rw [set_sessions_of_ne hk] at hy
        exact (h.apart i k x y (Ne.symm hk) hx hy).drawn id hid
    · exact absurd (lt_of_lt_of_le (lt_max_of_lt_right (lt_add_one id)) hle) (lt_irrefl id)
  · exact (h.known table id hin).set hn (not_old_noteDrawn hx)

theorem Sound.turn (h : Sound service sys) (hx : sys.sessions i = some x) {s' : Store}
    {run' : Run x.command.Reply} (ht : Run.Turn x.client sys.store x.run s' run') :
    Sound service (sys.set s' i (some (x.moved sys.store s' run'))) := by
  have hn : sys.store.nextId ≤ s'.nextId := by rcases ht.nextId_eq_or with hn | hn <;> omega
  obtain ⟨j, hl, hown, hothers⟩ := h.exists_leavesOthers hx ht
  -- a commit moves the tables under its locks; any other step leaves them alone
  rcases ht.tables_eq_or with ⟨htables, -⟩ | ⟨β, t, a, next, hrun, hrun', hv, -⟩
  · exact h.set_of_tables_eq htables hn ht.nextTxn_le (h.request_lt_turn hx ht) hl hothers
      (not_old_noteDrawn hx) (h.session_moved hx ht) (h.apart_moved hx ht)
  · obtain ⟨_, -, hc, -⟩ := h.committed hx hrun hv
    have htid : t.id = j := hown t (by rw [hrun]; rfl)
    exact h.set hn ht.nextTxn_le (h.request_lt_turn hx ht) hl hothers hc
      (fun id hid => not_supplied hx hid) (fun key hkey => htid ▸ hkey)
      (fun table id hin => h.old_of_commit hx hrun (by rw [hrun']; rfl) hn hv hin)
      (not_old_noteDrawn hx) (h.session_moved hx ht) (h.apart_moved hx ht)

/-- A request for a lock is a turn in which the lock is not got. -/
theorem turn_request {α β : Type} {client : Client} {s s' : Store} {t : Txn} {key : RowKey}
    {plan : Plan β} {next : Except LedgerError β → Operation α}
    (hallow : s.allow t.client "lock_row" = (.ok (), s')) (hq : (key, t.id) ∉ s'.lockQueue) :
    Run.Turn client s (.inside t (.lock key plan) next)
      { s' with lockQueue := s'.lockQueue ++ [(key, t.id)] } (.waiting t key plan next) := by
  have hb : s'.books = s.books := Store.books_allow hallow
  have hqueue : s'.lockQueue = s.lockQueue := congrArg Books.lockQueue hb
  refine .asked ?_ (hqueue ▸ hq)
  rw [← hb, ← hqueue]
  rfl

/-- **Every system that can come about is sound.** -/
theorem Reachable.sound (h : Reachable service sys) : Sound service sys := by
  induction h with
  | initial => exact sound_initial
  | step _ hs ih =>
    cases hs with
    | start i client now c _ => exact ih.start client now c
    | turn i x hx => exact ih.turn hx (Run.step_turn (Prod.eta _).symm)
    -- waiting for a lock that is free is a turn like any other
    | request i x hx hrun hallow hq => exact ih.turn hx (hrun ▸ turn_request hallow hq)
    | leave i x hx => exact ih.leave hx
    | disturb d => exact ih.disturb d

/-! ## Commits, one after the other -/

/-- **The committed tables are consistent at all times**, whatever commands were
given, in whatever order their steps were taken, and wherever clients went away
or faults struck. -/
theorem consistent_of_reachable (h : Reachable service sys) : sys.store.tables.Consistent :=
  h.sound.consistent

/-- The small ledger, which has an expense with two shares. -/
theorem consistent_trip :
    Sample.trip.store.tables.shares.toList.length = 2 ∧ Sample.trip.store.tables.Consistent :=
  ⟨by decide +kernel, consistent_of_reachable Sample.reachable_trip⟩

/-- **A commit does what its transaction does alone.** The transaction of a
command that was opened with the plan `body` has read and locked step by step,
while others took steps of their own. When it is committed, the tables become
what the plan makes of them if it is begun on them just then, undisturbed and
with the ids it has drawn; where it would fail, they stay what they are. The one
thing that may be out of date is the name of a creator who was to be called
what the account is called. -/
theorem commit_eq_tablesAfter (h : Reachable service sys) (hx : sys.sessions i = some x) {β : Type}
    {t : Txn} {a : β} {next : Except LedgerError β → Operation x.command.Reply}
    (hrun : x.run = .inside t (.done a) next) (hname : x.command.Explicit) {s' : Store}
    (hcommit : sys.store.commit t = (.ok (), s')) :
    ∃ body : Plan β, x.opened = some ⟨β, body⟩ ∧
      (service.operation x.now x.command).Leads (.transaction body next) ∧
      s'.tables = body.tablesAfter sys.store.tables (x.drawn ++ₛ idsFrom sys.store.nextId) := by
  have hsound := h.sound
  have hs := hsound.session i x hx
  have hrunSound := hrun ▸ hs.run
  have hv := Store.replay_of_commit hcommit
  obtain ⟨body, hopened, hleads, -, hexact⟩ := hrunSound.commit
    (service.lawful_operation x.now x.command) hsound.consistent hs.drawn_ascending hs.drawn_lt
    (fun id hid => ⟨hid.1, hid.2 i x hx⟩) hsound.known hv
  exact ⟨body, hopened, hleads, (hexact hname).symm⟩

/-- Two accounts are opened at the same time, both on the empty ledger, and the
first of them is through. -/
def twoRegistrations : System :=
  ((initial.given Sample.service 0 Sample.client (Sample.register "ada")).given Sample.service 1
    Sample.client (Sample.register "bea")).turns [0, 1, 0, 1, 0, 1, 0]

/-- The second is committed as if it had been opened after the first. -/
theorem second_registration_eq_tablesAfter :
    (twoRegistrations.turn 1).store.tables.users.toList.map User.id = [1, 2] ∧
      (twoRegistrations.turn 1).store.tables =
        (Account.registration "bea" "bea@example.org" (.hashed (Password.key "secret"))).tablesAfter
          twoRegistrations.store.tables ([2] ++ₛ idsFrom 3) := by
  have h : Reachable Sample.service twoRegistrations :=
    ((Reachable.initial.given 0 _ _).given 1 _ _).turns _
  refine ⟨by decide +kernel, ?_⟩
  obtain ⟨body, hopened, -, htables⟩ := commit_eq_tablesAfter h (i := 1) rfl rfl trivial rfl
  cases hopened
  exact htables

end System

end SharedLedger
