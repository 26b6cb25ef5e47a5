import SharedLedger.Proofs.Commands
import SharedLedger.Proofs.Stage
import SharedLedger.Proofs.System

/-!
# Sound systems

The invariant of commands that run side by side. The committed tables are
consistent. Every open transaction knows what its `Stage` says, of a
transaction of its own command, and holds the locks that go with it. No id was
drawn twice, and ids that were drawn but not committed are in no table.
-/

namespace SharedLedger

open scoped Stream'

/-! ## Ids -/

/-- Counting up from a number. -/
def idsFrom (n : Int) : Stream' Int := fun k => n + k

theorem tail_idsFrom (n : Int) : (idsFrom n).tail = idsFrom (n + 1) := by
  refine Stream'.ext fun k => ?_
  show n + ((k + 1 : ℕ) : Int) = n + 1 + (k : Int)
  omega

theorem supplied_append_iff {drawn : List Int} {n id : Int} :
    Supplied (drawn ++ₛ idsFrom n) id ↔ id ∈ drawn ∨ n ≤ id := by
  induction drawn with
  | nil =>
    rw [Stream'.nil_append_stream]
    constructor
    · rintro ⟨k, rfl⟩
      exact .inr (Int.le_add_of_nonneg_right (Int.natCast_nonneg k))
    · rintro (h | h)
      · cases h
      · refine ⟨(id - n).toNat, ?_⟩
        change n + ((id - n).toNat : Int) = id
        omega
  | cons a l ih =>
    constructor
    · rintro ⟨_ | k, hk⟩
      · exact .inl (List.mem_cons.2 (.inl hk.symm))
      · exact (ih.1 ⟨k, hk⟩).imp_left (List.mem_cons_of_mem a)
    · rintro (h | h)
      · rcases List.mem_cons.1 h with rfl | h
        · exact ⟨0, rfl⟩
        · obtain ⟨k, hk⟩ := ih.2 (.inl h)
          exact ⟨k + 1, hk⟩
      · obtain ⟨k, hk⟩ := ih.2 (.inr h)
        exact ⟨k + 1, hk⟩

theorem ascending_append {drawn : List Int} {n : Int} (hasc : drawn.Pairwise (· < ·))
    (hlt : ∀ id ∈ drawn, id < n) :
    ∀ j k, j < k → (drawn ++ₛ idsFrom n).get j < (drawn ++ₛ idsFrom n).get k := by
  induction drawn with
  | nil =>
    intro j k hjk
    change n + (j : Int) < n + (k : Int)
    omega
  | cons a l ih =>
    obtain ⟨ha, hl⟩ := List.pairwise_cons.1 hasc
    have ih := ih hl fun id hid => hlt id (List.mem_cons_of_mem a hid)
    intro j k hjk
    -- the first of the drawn ids is below all that follow, drawn or still to come
    obtain _ | k := k
    · cases hjk
    obtain _ | j := j
    · have hk : Supplied (l ++ₛ idsFrom n) ((l ++ₛ idsFrom n).get k) := ⟨k, rfl⟩
      change a < (l ++ₛ idsFrom n).get k
      rcases supplied_append_iff.1 hk with h | h
      · exact ha _ h
      · exact (hlt a List.mem_cons_self).trans_le h
    · exact ih j k (by omega)

/-- The ids a transaction has drawn and those to come are fresh for tables that
have none of them. -/
theorem fresh_append {drawn : List Int} {n : Int} {t : Tables} (hasc : drawn.Pairwise (· < ·))
    (hlt : ∀ id ∈ drawn, id < n)
    (hk : ∀ table id, t.contains table id = true → id < n ∧ id ∉ drawn) :
    Fresh (drawn ++ₛ idsFrom n) t where
  ascending := ascending_append hasc hlt
  unused k table := by
    by_contra hin
    obtain ⟨hn, hd⟩ := hk table _ (by simpa using hin)
    rcases supplied_append_iff.1 ⟨k, rfl⟩ with h | h
    · exact hd h
    · omega

/-! ## Locks -/

/-- The locks a transaction holds, and the rows it has asked for. -/
structure Store.Holds (s : Store) (id : TxnId) (ls ks : List RowKey) : Prop where
  holder : ∀ key ∈ ls, s.holder? key = some id
  request : ∀ r ∈ s.lockQueue, r.2 = id → r.1 ∈ ks

namespace Store.Holds

variable {s s' : Store} {id : TxnId} {ls ks : List RowKey} {key : RowKey}

theorem congr (h : s.Holds id ls ks) (hq : s'.lockQueue = s.lockQueue) : s'.Holds id ls ks where
  holder key hkey := (holder_congr hq key).trans (h.holder key hkey)
  request r hr := h.request r (hq ▸ hr)

/-- The step of another transaction takes no lock away. -/
theorem others {j : TxnId} (h : s.Holds id ls ks) (hl : s.LeavesOthers s' j) (hne : id ≠ j) :
    s'.Holds id ls ks where
  holder key hkey := hl.holder key id hne (h.holder key hkey)
  request r hr hid := by
    rcases hl.request r hr with hr | hj
    · exact h.request r hr hid
    · exact absurd (hid.symm.trans hj) hne

/-- A request goes to the end of the queue. -/
theorem ask (h : s.Holds id ls ks) (hq : s'.lockQueue = s.lockQueue ++ [(key, id)]) :
    s'.Holds id ls (ks ++ [key]) where
  holder k hk := holder_append hq (h.holder k hk)
  request r hr hid := by
    rw [hq, List.mem_append, List.mem_singleton] at hr
    rw [List.mem_append]
    rcases hr with hr | rfl
    · exact .inl (h.request r hr hid)
    · exact .inr List.mem_cons_self

theorem get (h : s.Holds id ls ks) (hh : s.holder? key = some id) : s.Holds id (ls ++ [key]) ks where
  holder k hk := by
    rcases List.mem_append.1 hk with hk | hk
    · exact h.holder k hk
    · exact List.mem_singleton.1 hk ▸ hh
  request := h.request

end Store.Holds

/-! ## Runs -/

/-- What is left of an operation after some of its transactions. -/
inductive Operation.Leads {α : Type} (op : Operation α) : Operation α → Prop
  | start : Leads op op
  | next {β : Type} {body : Plan β} {next : Except LedgerError β → Operation α}
      (h : Leads op (.transaction body next)) (r : Except LedgerError β) : Leads op (next r)
  | overflow {β : Type} {body : Plan β} {next : Except LedgerError β → Operation α}
      (h : Leads op (.transaction body next)) (o : Overflow) :
      Leads op (.done (.error (.overflow o)))

theorem Operation.Lawful.leads {α : Type} {exact : Prop} {op op' : Operation α}
    (h : op.Lawful exact) (hl : op.Leads op') : op'.Lawful exact := by
  induction hl with
  | start => exact h
  | next _ r ih =>
    cases ih with
    | transaction _ _ hn => exact hn r
  | overflow _ o _ => exact .done _

namespace Run

open Plan (Stage)
open Tables

variable {α : Type}

/-- **What holds of a run** of the operation `op`, given which ids are old and
what was noted of its open transaction. -/
inductive Sound (op : Operation α) (old : Int → Prop) (s : Store)
    (opened : Option (Σ β : Type, Plan β)) (drawn : List Int) : Run α → Prop
  /-- Between transactions. -/
  | outside {rest : Operation α} (h : op.Leads rest) : Sound op old s opened drawn (.outside rest)
  /-- In a transaction. -/
  | inside {β : Type} {t : Txn} {body plan : Plan β} {next : Except LedgerError β → Operation α}
      {ls : List RowKey} (ho : opened = some ⟨β, body⟩) (hl : op.Leads (.transaction body next))
      (hs : Stage body old s.tables ls t drawn plan) (hk : s.Holds t.id ls ls) :
      Sound op old s opened drawn (.inside t plan next)
  /-- In a transaction that is to be rolled back. -/
  | failed {β : Type} {t : Txn} {body : Plan β} {next : Except LedgerError β → Operation α}
      {e : LedgerError} (hl : op.Leads (.transaction body next)) :
      Sound op old s opened drawn (.inside t (.fail (.refused e)) next)
  /-- Waiting for a lock. -/
  | waiting {β : Type} {t : Txn} {key : RowKey} {body plan : Plan β}
      {next : Except LedgerError β → Operation α} {ls : List RowKey}
      (ho : opened = some ⟨β, body⟩) (hl : op.Leads (.transaction body next))
      (hs : Stage body old s.tables ls t drawn (.lock key plan))
      (hk : s.Holds t.id ls (ls ++ [key])) :
      Sound op old s opened drawn (.waiting t key plan next)

variable {op : Operation α} {old old' : Int → Prop} {s s' : Store}
  {opened : Option (Σ β : Type, Plan β)} {drawn : List Int} {run run' : Run α}

theorem noteDrawn_of_nextId_eq {run : Run α} {t : Txn} (ht : run.txn? = some t)
    (hn : s'.nextId = s.nextId) : run.noteDrawn s s' drawn = drawn := by
  simp [noteDrawn, ht, hn]

/-- What is noted of a call is the id it has drawn. -/
theorem noteDrawn_call {run : Run α} {t : Txn} {c : Call} (ht : run.txn? = some t)
    (hn : s'.nextId = s.nextId + c.idsUsed) :
    run.noteDrawn s s' drawn = drawn ++ c.drawn s.nextId := by
  unfold noteDrawn Call.drawn
  rw [ht, hn]
  cases hi : c.insertsInto? <;> simp [Call.idsUsed, hi]

theorem mem_noteDrawn {run : Run α} {id : Int} (h : id ∈ run.noteDrawn s s' drawn) :
    id ∈ drawn ∨ (id = s.nextId ∧ s'.nextId ≠ s.nextId) := by
  unfold noteDrawn at h
  split at h
  · cases h
  · split at h
    · rw [List.append_nil] at h
      exact .inl h
    · next hn => simpa [hn] using h

theorem ascending_noteDrawn {run : Run α} (hasc : drawn.Pairwise (· < ·))
    (hlt : ∀ id ∈ drawn, id < s.nextId) : (run.noteDrawn s s' drawn).Pairwise (· < ·) := by
  unfold noteDrawn
  split
  · exact .nil
  · split
    · rw [List.append_nil]
      exact hasc
    · refine List.pairwise_append.2 ⟨hasc, List.pairwise_singleton .., fun id hid n hn => ?_⟩
      rw [List.mem_singleton.1 hn]
      exact hlt id hid

/-- **A run stays sound in its own steps.** -/
theorem Sound.turn {exact : Prop} {client : Client} (hop : op.Lawful exact)
    (hT : s.tables.Consistent) (hk : ∀ table id, s.tables.contains table id = true → old id)
    (hq : ∀ r ∈ s.lockQueue, r.2 < s.nextTxn) (hd : run.txn? = none → drawn = [])
    (h : Sound op old s opened drawn run) (ht : Turn client s run s' run') :
    Sound op old s' (run.noteOpened opened) (run'.noteDrawn s s' drawn) run' := by
  cases ht with
  | finished =>
    obtain ⟨h⟩ | _ := h
    exact .outside h
  | refused =>
    obtain ⟨h⟩ | _ := h
    exact .outside (h.next _)
  | @opened _ body next _ hb =>
    obtain ⟨h⟩ | _ := h
    have ht : s'.tables = s.tables := congrArg Books.tables hb
    have hdrawn : drawn = [] := hd rfl
    cases hop.leads h with
    | transaction hg hl hn =>
      rw [noteDrawn_of_nextId_eq rfl (congrArg Books.nextId hb), hdrawn]
      have hs : Stage body old s'.tables [] ⟨s.nextTxn, client, s.tables, []⟩ [] body := by
        rw [ht]
        exact .start hg hT hk s.nextTxn client
      refine .inside rfl h hs ?_
      -- the name of the transaction is new, so nobody has asked for a row in it
      refine ⟨fun key hkey => (by cases hkey), fun r hr hid => ?_⟩
      have hqueue : s'.lockQueue = s.lockQueue := congrArg Books.lockQueue hb
      exact absurd hid (Nat.ne_of_lt (hq r (hqueue ▸ hr)))
  | committed =>
    cases h with
    | inside _ hl _ _ => exact .outside (hl.next _)
  | lost =>
    cases h with
    | inside _ hl _ _ => exact .outside (hl.next _)
  | rolledBack =>
    cases h with
    | inside _ hl _ _ => exact .outside (hl.next _)
    | failed hl => exact .outside (hl.next _)
  | overflowed =>
    cases h with
    | inside _ hl _ _ => exact .outside (hl.overflow _)
  | held hb hin =>
    have ht : s'.tables = s.tables := congrArg Books.tables hb
    have hqueue : s'.lockQueue = s.lockQueue := congrArg Books.lockQueue hb
    rw [noteDrawn_of_nextId_eq rfl (congrArg Books.nextId hb)]
    cases h with
    | inside ho hl hs hh =>
      -- what it has asked for it holds, as it is not waiting
      have hkey := hh.request _ hin rfl
      have hh' := (hh.get (hh.holder _ hkey)).congr hqueue
      exact .inside ho hl (ht ▸ hs.held hkey)
        ⟨hh'.holder, fun r hr hid => List.mem_append_left _ (hh'.request r hr hid)⟩
  | asked hb hin =>
    have ht : s'.tables = s.tables := congrArg Books.tables hb
    rw [noteDrawn_of_nextId_eq rfl (congrArg Books.nextId hb)]
    cases h with
    | inside ho hl hs hh =>
      exact .waiting ho hl (ht ▸ hs) (hh.ask (congrArg Books.lockQueue hb))
  | locked hb hin hholder hv hc =>
    have ht : s'.tables = s.tables := congrArg Books.tables hb
    rw [noteDrawn_of_nextId_eq rfl (congrArg Books.nextId hb)]
    cases h with
    | inside ho hl hs hh =>
      cases hop.leads hl with
      | transaction hg _ _ =>
        exact .inside ho hl (ht ▸ hs.locked hg hT hk hv hc)
          ((hh.ask (congrArg Books.lockQueue hb)).get hholder)
  | granted hholder hv hc =>
    rw [noteDrawn_of_nextId_eq rfl rfl]
    cases h with
    | waiting ho hl hs hh =>
      cases hop.leads hl with
      | transaction hg _ _ => exact .inside ho hl (hs.locked hg hT hk hv hc) (hh.get hholder)
  | still =>
    rw [noteDrawn_of_nextId_eq rfl rfl]
    exact h
  | denied hrun =>
    rcases hrun with rfl | rfl
    · cases h with
      | inside _ hl _ _ => exact .failed hl
    · cases h with
      | waiting _ hl _ _ => exact .failed hl
  | called he hv hb =>
    have ht : s'.tables = s.tables := congrArg Books.tables hb
    rw [noteDrawn_call rfl (congrArg Books.nextId hb)]
    cases h with
    | inside ho hl hs hh =>
      exact .inside ho hl (ht ▸ hs.called he hv) (hh.congr (congrArg Books.lockQueue hb))
  | failed =>
    cases h with
    | inside _ hl _ _ => exact .failed hl

/-- **A run stays sound in the steps of others.** -/
theorem Sound.moved {new : Int → Prop} {held : RowKey → Prop}
    (h : Sound op old s opened drawn run)
    (hl : ∀ t, run.txn? = some t → ∃ j, t.id ≠ j ∧ s.LeavesOthers s' j)
    (hc : Changes new held s.tables s'.tables) (hnew : ∀ id, old id → ¬ new id)
    (hheld : ∀ t, run.txn? = some t → ∀ key, s.holder? key = some t.id → ¬ held key)
    (hold : ∀ id, old id → old' id) : Sound op old' s' opened drawn run := by
  cases h with
  | outside h => exact .outside h
  | failed h => exact .failed h
  | inside ho hlead hs hk =>
    obtain ⟨j, hne, hl⟩ := hl _ rfl
    exact .inside ho hlead
      (hs.moved hc hnew (fun key hkey => hheld _ rfl key (hk.holder key hkey)) hold)
      (hk.others hl hne)
  | waiting ho hlead hs hk =>
    obtain ⟨j, hne, hl⟩ := hl _ rfl
    exact .waiting ho hlead
      (hs.moved hc hnew (fun key hkey => hheld _ rfl key (hk.holder key hkey)) hold)
      (hk.others hl hne)

/-- More ids may have become old. -/
theorem Sound.mono (h : Sound op old s opened drawn run) (hold : ∀ id, old id → old' id) :
    Sound op old' s opened drawn run := by
  have none : Changes (fun _ => False) (fun _ => False) s.tables s.tables := .refl
  have stage {β : Type} {body rest : Plan β} {ls : List RowKey} {t : Txn}
      (hs : Stage body old s.tables ls t drawn rest) : Stage body old' s.tables ls t drawn rest :=
    hs.moved none (fun _ _ h => h) (fun _ _ h => h) hold
  cases h with
  | outside h => exact .outside h
  | failed h => exact .failed h
  | inside ho hl hs hk => exact .inside ho hl (stage hs) hk
  | waiting ho hl hs hk => exact .waiting ho hl (stage hs) hk

/-- **What a commit does**: it changes the tables under the locks of the
transaction, with ids it has drawn, and just as its plan would alone. -/
theorem Sound.commit {exact : Prop} {β : Type} {t : Txn} {a : β}
    {next : Except LedgerError β → Operation α} {T' : Tables} {n : Int} (hop : op.Lawful exact)
    (hT : s.tables.Consistent) (hasc : drawn.Pairwise (· < ·)) (hlt : ∀ id ∈ drawn, id < n)
    (hold : ∀ id, old id → id < n ∧ id ∉ drawn)
    (hk : ∀ table id, s.tables.contains table id = true → old id)
    (h : Sound op old s opened drawn (.inside t (.done a) next))
    (hv : s.tables.replay t.journal = .ok T') :
    ∃ body : Plan β, opened = some ⟨β, body⟩ ∧ op.Leads (.transaction body next) ∧
      Changes (Supplied (drawn ++ₛ idsFrom n)) (fun key => s.holder? key = some t.id) s.tables T' ∧
      (exact → body.tablesAfter s.tables (drawn ++ₛ idsFrom n) = T') := by
  obtain _ | ⟨ho, hl, hs, hh⟩ := h
  obtain ⟨V, hf, halone⟩ := hs.concluded
  cases hop.leads hl with
  | transaction hg hlaw _ =>
    -- the ids drawn are unused in the old tables and in the new ones, so both may draw them
    have hfV := fresh_append hasc hlt fun table id hin => hold id (hf.known table id hin)
    have hfT := fresh_append hasc hlt fun table id hin => hold id (hk table id hin)
    obtain ⟨hchanges, hexact⟩ := hlaw.commit hf.base hT hfV hfT (halone _) hv
    exact ⟨_, ho, hl, hchanges.mono (fun _ h => h) hh.holder, hexact⟩

end Run

end SharedLedger
