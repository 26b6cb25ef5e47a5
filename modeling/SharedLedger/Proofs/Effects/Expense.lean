import SharedLedger.Proofs.Lawful
import SharedLedger.Proofs.Sharing

/-!
# What expenses and shares do to the tables

Whoever writes shares holds the locks of the expense and of its group, so the
members the shares were checked against are still members when the journal is
replayed. Whoever takes shares away holds the lock of the expense alone; if
the whole group is deleted meanwhile, nothing is left to be taken away and
the journal changes nothing.
-/

namespace SharedLedger

open Tables Plan

variable {t t' T T' V : Tables} {ids : Stream' Int}

namespace Expense

/-! ## Writing shares -/

/-- The rows of shares that are inserted one after the other. -/
def shareRows (e : SharedLedger.Expense) : Stream' Int → List ShareDraft → List Share
  | _, [] => []
  | ids, s :: ss => s.row ids.head e.id e.amount :: shareRows e ids.tail ss

/-- What is written when shares are inserted. -/
def insertions (e : SharedLedger.Expense) (ids : Stream' Int) (ss : List ShareDraft) :
    List Mutation :=
  (shareRows e ids ss).map fun s => .put (.share s)

variable {e : SharedLedger.Expense} {ss : List ShareDraft}

theorem mem_shareRows {s : Share} (h : s ∈ shareRows e ids ss) :
    ∃ d ∈ ss, ∃ n, s = d.row (ids.get n) e.id e.amount :=
  mem_rows (fun id d => ShareDraft.row d id e.id e.amount) (fun _ => rfl) (fun _ _ _ => rfl) h

theorem ascending_shareRows (h : ∀ m n, m < n → ids.get m < ids.get n) :
    (shareRows e ids ss).Pairwise fun a b => a.id < b.id :=
  ascending_rows (fun id d => ShareDraft.row d id e.id e.amount) (fun _ => rfl) (fun _ _ _ => rfl)
    (fun _ _ => rfl) h

/-- What the shares are worth does not depend on their ids. -/
theorem map_shareRows {α : Type} {f : Share → α} {g : ShareDraft → α}
    (h : ∀ d n, f (d.row n e.id e.amount) = g d) : (shareRows e ids ss).map f = ss.map g :=
  map_rows (fun id d => ShareDraft.row d id e.id e.amount) (fun _ => rfl) (fun _ _ _ => rfl) h

theorem alone_insertShares {o : Outcome (List Share)} :
    (insertShares e ss).alone t ids = .ok o ↔
      ∃ t', t.replay (insertions e ids ss) = .ok t' ∧
        o = ⟨shareRows e ids ss, [], insertions e ids ss, t', ids.drop ss.length⟩ :=
  alone_rows (insertShares e) (fun id s => s.row id e.id e.amount) (shareRows e)
    (fun s => .put (.share s)) rfl (fun _ => rfl) (fun _ _ _ _ _ => alone_write rfl)
    fun _ _ _ => rfl

theorem alone_insertShares_bind {α : Type} {f : List Share → Plan α} {o : Outcome α} :
    ((insertShares e ss).bind f).alone t ids = .ok o ↔
      ∃ t' o', t.replay (insertions e ids ss) = .ok t' ∧
        (f (shareRows e ids ss)).alone t' (ids.drop ss.length) = .ok o' ∧
        o = o'.after [] (insertions e ids ss) :=
  alone_writes_bind fun _ => alone_insertShares

/-- What is written when an expense gets a new set of shares. -/
def resharingJournal (t : Tables) (e : SharedLedger.Expense) (ids : Stream' Int)
    (ss : List ShareDraft) : List Mutation :=
  t.deletionOfShares e.id ++ insertions e ids ss

/-- Whether the shares are in order for the expense. -/
def Accepts (t : Tables) (e : SharedLedger.Expense) (ss : List ShareDraft) : Prop :=
  Sharing.validate e.groupId e.amount (t.membersOf e.groupId) ss = .ok ()

theorem alone_writeShares {o : Outcome SharesReplaced} :
    (writeShares e ss).alone t ids = .ok o ↔
      Accepts t e ss ∧ ∃ t', t.replay (resharingJournal t e ids ss) = .ok t' ∧
        o = ⟨⟨(t.sharesOf e.id).length, shareRows e ids ss⟩, [], resharingJournal t e ids ss, t',
          ids.drop ss.length⟩ := by
  refine ((alone_query rfl rfl).trans alone_ofExcept).trans ?_
  simp only [Accepts]
  constructor
  · rintro ⟨⟨⟩, hv, ho⟩
    obtain ⟨t₁, o₁, h₁, ho₁, rfl⟩ := (alone_write rfl).1 ho
    obtain ⟨t', o₂, h', ho₂, rfl⟩ := alone_insertShares_bind.1 ho₁
    rw [alone_done.1 ho₂]
    refine ⟨hv, t', replay_append.2 ⟨t₁, h₁, h'⟩, ?_⟩
    simp [Outcome.after, resharingJournal, Call.idsAfter, Call.insertsInto?]
  · rintro ⟨hv, t', ht', rfl⟩
    obtain ⟨t₁, h₁, h'⟩ := replay_append.1 ht'
    refine ⟨(), hv, (alone_write rfl).2 ⟨t₁, _, h₁,
      alone_insertShares_bind.2 ⟨t', _, h', alone_done.2 rfl, rfl⟩, ?_⟩⟩
    simp [Outcome.after, resharingJournal, Call.idsAfter, Call.insertsInto?]

/-- Taking out the shares of an expense by their ids. -/
theorem dropShares_sharesOf {id : Int} :
    (t.dropShares fun s => (t.sharesOf id).any fun r => r.id == s.id) =
      t.dropShares fun s => s.expenseId == id := by
  simp only [dropShares]
  congr 1
  refine Index.ext_mem fun s => ?_
  simp only [Index.mem_filter]
  refine and_congr_right fun hs => ?_
  have hany : ((t.sharesOf id).any fun r => r.id == s.id) = (s.expenseId == id) :=
    t.shares.any_key_filter (fun s => s.expenseId == id) hs
  rw [hany]

theorem replay_deletionOfShares (t : Tables) (id : Int) :
    t.replay (t.deletionOfShares id) = .ok (t.dropShares fun s => s.expenseId == id) := by
  rw [← dropShares_sharesOf]
  exact replay_delete_shares _

theorem replay_put_shares {rows : List Share}
    (h : t.replay (rows.map fun s => .put (.share s)) = .ok t') : t' = putShares t rows := by
  induction rows generalizing t with
  | nil =>
    cases h
    rfl
  | cons s rows ih =>
    obtain ⟨-, h⟩ := replay_cons.1 h
    exact ih h

/-- The old shares go and the new ones come. -/
theorem replay_resharingJournal (h : t.replay (resharingJournal t e ids ss) = .ok t') :
    t' = putShares (t.dropShares fun s => s.expenseId == e.id) (shareRows e ids ss) := by
  obtain ⟨t₁, h₁, h'⟩ := replay_append.1 h
  rw [replay_deletionOfShares] at h₁
  cases h₁
  exact replay_put_shares h'

theorem sharesOf_dropShares_self (t : Tables) (id : Int) :
    (t.dropShares fun s => s.expenseId == id).sharesOf id = [] := by
  rw [sharesOf_dropShares, List.filter_eq_nil_iff]
  intro s hs
  simp [(mem_sharesOf.1 hs).2]

variable {new : Int → Prop} {held : RowKey → Prop}

/-- A set of shares that was accepted may be put in. -/
theorem change_putShares (hf : Fresh ids t) (hsup : ∀ id, Supplied ids id → new id)
    (hid : new e.id ∨ held ⟨.expenses, e.id⟩) (hg : held ⟨.groups, e.groupId⟩)
    (he : t.expenses.find? e.id = some e) (hnone : t.sharesOf e.id = []) (hv : Accepts t e ss) :
    Change new held t (putShares t (shareRows e ids ss)) := by
  obtain ⟨horder, hsum, htotal⟩ := Sharing.of_validate hv
  refine .putShares e _ hid hg he hnone (fun s hs => ?_) (ascending_shareRows hf.ascending)
    (fun s hs => ?_) ⟨?_, ?_⟩
  · obtain ⟨d, -, n, rfl⟩ := mem_shareRows hs
    exact ⟨hsup _ ⟨n, rfl⟩, hf.unused n .shares⟩
  · obtain ⟨d, hd, n, rfl⟩ := mem_shareRows hs
    have hin := horder d hd
    refine ⟨rfl, ⟨hin.fraction_nonneg, hin.fraction_le_one, hin.amount_pos, rfl⟩, fun m hm => ?_⟩
    exact Sharing.isMemberRow_membersOf.1 (hin.owedBy m hm)
  · rw [map_shareRows (g := fun d => d.fraction.value) fun _ _ => rfl]
    exact hsum
  · rw [map_shareRows (g := fun d => d.amount) fun _ _ => rfl]
    exact htotal

/-- Ids that are not in use stay so when shares are taken out. -/
theorem fresh_dropShares (hf : Fresh ids t) (id : Int) :
    Fresh ids (t.dropShares fun s => s.expenseId == id) := by
  have hc : Change (fun _ => False) (fun _ => True) t (t.dropShares fun s => s.expenseId == id) :=
    .dropShares id (.inr trivial)
  exact hf.of_change hc

/-- An expense may get a new set of shares that was accepted. -/
theorem changes_of_resharing (hf : Fresh ids t) (hsup : ∀ id, Supplied ids id → new id)
    (hid : new e.id ∨ held ⟨.expenses, e.id⟩) (hg : held ⟨.groups, e.groupId⟩)
    (he : t.expenses.find? e.id = some e) (hv : Accepts t e ss) :
    Changes new held t (putShares (t.dropShares fun s => s.expenseId == e.id) (shareRows e ids ss)) :=
  .tail (.single (.dropShares e.id hid)) <|
    change_putShares (fresh_dropShares hf e.id) hsup hid hg he (sharesOf_dropShares_self t e.id) hv

/-- The members of a locked group accept the same shares. -/
theorem accepts_iff {locked : List RowKey} (hb : Base locked V T)
    (hg : (⟨.groups, e.groupId⟩ : RowKey) ∈ locked) : Accepts T e ss ↔ Accepts V e ss := by
  unfold Accepts
  rw [Sharing.validate_congr fun m => ?_]
  rw [Bool.eq_iff_iff, Sharing.isMemberRow_membersOf, Sharing.isMemberRow_membersOf]
  exact hb.hasMember_iff hg

/-! ## Shares that come with an expense -/

/-- The rows of the shares that are given, if any. -/
def givenRows (e : SharedLedger.Expense) (ids : Stream' Int) : Option (List ShareDraft) → List Share
  | none => []
  | some ss => shareRows e ids ss

/-- What is written of the shares that are given, if any. -/
def givenJournal (t : Tables) (e : SharedLedger.Expense) (ids : Stream' Int) :
    Option (List ShareDraft) → List Mutation
  | none => []
  | some ss => resharingJournal t e ids ss

/-- Whether the shares that are given, if any, are in order for the expense. -/
def AcceptsGiven (t : Tables) (e : SharedLedger.Expense) : Option (List ShareDraft) → Prop
  | none => True
  | some ss => Accepts t e ss

/-- The plan that writes the shares that are given, if any. -/
def writeGiven (e : SharedLedger.Expense) (otherwise : Plan SharedExpense) :
    Option (List ShareDraft) → Plan SharedExpense
  | none => otherwise
  | some ss => (writeShares e ss).bind fun w => .done ⟨e, w.created⟩

theorem alone_writeGiven {shares : Option (List ShareDraft)} {otherwise : Plan SharedExpense}
    {r : SharedExpense} (hr : otherwise.alone t ids = .ok ⟨r, [], [], t, ids⟩)
    {o : Outcome SharedExpense} :
    (writeGiven e otherwise shares).alone t ids = .ok o ↔
      AcceptsGiven t e shares ∧ ∃ t', t.replay (givenJournal t e ids shares) = .ok t' ∧
        o = ⟨shares.elim r fun ss => ⟨e, shareRows e ids ss⟩, [], givenJournal t e ids shares, t',
          ids.drop (shares.elim 0 List.length)⟩ := by
  cases shares with
  | none =>
    unfold writeGiven
    rw [hr]
    constructor
    · intro ho
      cases ho
      exact ⟨trivial, t, rfl, rfl⟩
    · rintro ⟨-, t', ht', rfl⟩
      cases ht'
      rfl
  | some ss =>
    refine alone_bind.trans ?_
    constructor
    · rintro ⟨o₁, o₂, h₁, h₂, rfl⟩
      obtain ⟨hv, t', ht', rfl⟩ := alone_writeShares.1 h₁
      rw [alone_done.1 h₂]
      exact ⟨hv, t', ht', by simp [Outcome.after, givenJournal]⟩
    · rintro ⟨hv, t', ht', rfl⟩
      exact ⟨_, _, alone_writeShares.2 ⟨hv, t', ht', rfl⟩, alone_done.2 rfl,
        by simp [Outcome.after, givenJournal]⟩

/-- Shares are checked and written the same way after the row of an expense was
put in. -/
theorem acceptsGiven_put (x : SharedLedger.Expense) (shares : Option (List ShareDraft)) :
    AcceptsGiven (t.enact (.put (.expense x))) e shares ↔ AcceptsGiven t e shares := by
  cases shares <;> rfl

theorem givenJournal_put (x : SharedLedger.Expense) (shares : Option (List ShareDraft)) :
    givenJournal (t.enact (.put (.expense x))) e ids shares = givenJournal t e ids shares := by
  cases shares <;> rfl

/-- The members of a locked group accept the same shares, if any. -/
theorem acceptsGiven_iff {locked : List RowKey} (hb : Base locked V T)
    (hg : (⟨.groups, e.groupId⟩ : RowKey) ∈ locked) (shares : Option (List ShareDraft)) :
    AcceptsGiven T e shares ↔ AcceptsGiven V e shares := by
  cases shares with
  | none => rfl
  | some ss => exact accepts_iff hb hg

theorem givenJournal_congr (h : T.sharesOf e.id = V.sharesOf e.id)
    (shares : Option (List ShareDraft)) :
    givenJournal T e ids shares = givenJournal V e ids shares := by
  cases shares with
  | none => rfl
  | some ss => simp only [givenJournal, resharingJournal, deletionOfShares, h]

/-! ## Creation -/

theorem alone_requirePayer {α : Type} {g m : Int} {f : Unit → Plan α} {o : Outcome α} :
    ((requirePayer g m).bind f).alone t ids = .ok o ↔
      t.HasMember g m ∧ (f ()).alone t ids = .ok o := by
  refine (alone_query rfl rfl).trans ?_
  simp only [Plan.bind]
  cases hm : t.members.find? m with
  | none =>
    constructor
    · exact fun ho => absurd ho alone_fail
    · rintro ⟨⟨o', ho', -⟩, -⟩
      rw [hm] at ho'
      cases ho'
  | some r =>
    by_cases hg : r.groupId = g
    · simp only [hg, if_true]
      exact ⟨fun ho => ⟨⟨r, hm, hg⟩, ho⟩, And.right⟩
    · simp only [hg, if_false]
      constructor
      · exact fun ho => absurd ho alone_fail
      · rintro ⟨⟨o', ho', hog⟩, -⟩
        rw [hm] at ho'
        cases ho'
        exact absurd hog hg

/-- What is written when an expense is created, with its shares if they are
given. -/
def creationJournal (t : Tables) (g : Int) (draft : ExpenseDraft) (ids : Stream' Int) :
    List Mutation :=
  .put (.expense (draft.row ids.head g)) ::
    givenJournal t (draft.row ids.head g) ids.tail draft.shares

/-- A creation is a check, a row and shares. -/
theorem creation_eq (g : Int) (draft : ExpenseDraft) :
    creation g draft = (hold .groups g).bind fun _ => (requirePayer g draft.paidBy).bind fun _ =>
      (ask (.insertExpense g draft)).bind fun e =>
        writeGiven e (.done ⟨e, []⟩) draft.shares := by
  unfold creation
  cases draft.shares <;> rfl

theorem alone_creation {g : Int} {draft : ExpenseDraft} {o : Outcome SharedExpense} :
    (creation g draft).alone t ids = .ok o ↔
      t.groups.contains g = true ∧ t.HasMember g draft.paidBy ∧
        AcceptsGiven t (draft.row ids.head g) draft.shares ∧
        ∃ t', t.replay (creationJournal t g draft ids) = .ok t' ∧
          o = ⟨⟨draft.row ids.head g, givenRows (draft.row ids.head g) ids.tail draft.shares⟩,
            [⟨.groups, g⟩], creationJournal t g draft ids, t',
            ids.tail.drop (draft.shares.elim 0 List.length)⟩ := by
  rw [creation_eq, alone_hold]
  simp only [alone_requirePayer]
  constructor
  · rintro ⟨hin, o', ⟨hp, ho⟩, rfl⟩
    obtain ⟨t₁, o₁, h₁, ho₁, rfl⟩ := (alone_write rfl).1 ho
    obtain ⟨hc, rfl⟩ := replay_singleton.1 h₁
    obtain ⟨hv, t', ht', rfl⟩ := (alone_writeGiven (alone_done.2 rfl)).1 ho₁
    rw [givenJournal_put] at ht'
    refine ⟨hin, hp, (acceptsGiven_put _ _).1 hv, t', replay_cons.2 ⟨hc, ht'⟩, ?_⟩
    simp only [givenJournal_put, creationJournal]
    cases draft.shares <;> rfl
  · rintro ⟨hin, hp, hv, t', ht', rfl⟩
    obtain ⟨hc, ht'⟩ := replay_cons.1 ht'
    rw [← givenJournal_put (draft.row ids.head g)] at ht'
    refine ⟨hin, _, ⟨hp, (alone_write rfl).2 ⟨_, _, replay_singleton.2 ⟨hc, rfl⟩,
      (alone_writeGiven (alone_done.2 rfl)).2 ⟨(acceptsGiven_put _ _).2 hv, t', ht', rfl⟩, rfl⟩⟩, ?_⟩
    simp only [givenJournal_put, creationJournal]
    cases draft.shares <;> rfl

theorem lawful_creation (g : Int) {draft : ExpenseDraft} (hamount : 0 ≤ draft.amount.value) :
    (creation g draft).Lawful True := by
  refine lawful_of_repeats ?_ ?_
  · intro T ids o hT hf ho
    obtain ⟨hin, hp, hv, t', ht', rfl⟩ := alone_creation.1 ho
    obtain ⟨hc, ht'⟩ := replay_cons.1 ht'
    have hheld : (⟨.groups, g⟩ : RowKey) ∈ [(⟨.groups, g⟩ : RowKey)] := List.mem_singleton_self _
    have hnew : T.expenses.contains ids.head = false := hf.head_unused .expenses
    have hput : Change (· = ids.head) (· ∈ [(⟨.groups, g⟩ : RowKey)]) T
        (T.enact (.put (.expense (draft.row ids.head g)))) :=
      .putExpense _ (.inl ⟨rfl, hnew⟩) hheld hin hp hamount
    have hput' : Change (Supplied ids) (· ∈ [(⟨.groups, g⟩ : RowKey)]) T _ :=
      hput.mono (fun i (hi : i = ids.head) => hi ▸ supplied_head ids) fun _ hk => hk
    cases hs : draft.shares with
    | none =>
      rw [hs] at ht'
      cases ht'
      exact .single hput'
    | some ss =>
      rw [hs] at hv ht'
      rw [replay_resharingJournal ht']
      refine .head hput' (changes_of_resharing (hf.tail_of_change hput) (fun _ => .of_tail)
        (.inl (supplied_head ids)) hheld ?_ ((acceptsGiven_put _ (some ss)).2 hv))
      exact Index.find?_put_self _ _
  · intro V T T' ids o hb hT hV hf ho hr
    obtain ⟨-, hp, hv, t', -, rfl⟩ := alone_creation.1 ho
    have hheld : (⟨.groups, g⟩ : RowKey) ∈ [(⟨.groups, g⟩ : RowKey)] := List.mem_singleton_self _
    -- nobody has shares of an expense that is still to be created
    have hshares : T.sharesOf ids.head = V.sharesOf ids.head := by
      rw [hT.sharesOf_eq_nil (hf.head_unused .expenses),
        hb.consistent.sharesOf_eq_nil (hV.head_unused .expenses)]
    have hj : creationJournal T g draft ids = creationJournal V g draft ids :=
      congrArg (_ :: ·) (givenJournal_congr hshares _)
    have hr' : T.replay (creationJournal T g draft ids) = .ok T' := by
      rw [hj]
      exact hr
    exact .inl ⟨_, alone_creation.2 ⟨hb.contains_group hheld, (hb.hasMember_iff hheld).2 hp,
      (acceptsGiven_iff hb hheld _).2 hv, T', hr', rfl⟩, rfl, rfl⟩

/-! ## Under the locks of an expense and its group -/

/-- The keys that are locked with an expense. -/
def keys (e : SharedLedger.Expense) : List RowKey := [⟨.expenses, e.id⟩, ⟨.groups, e.groupId⟩]

theorem alone_locked {α : Type} {id : Int} {f : SharedLedger.Expense → Plan α} {o : Outcome α} :
    ((locked id).bind f).alone t ids = .ok o ↔
      ∃ e, t.expenses.find? id = some e ∧ t.groups.contains e.groupId = true ∧
        ∃ o', (f e).alone t ids = .ok o' ∧ o = o'.after (keys e) [] := by
  have hassoc : (locked id).bind f = (hold .expenses id).bind fun _ =>
      (Plan.expense id).bind fun e => (hold .groups e.groupId).bind fun _ => f e := by
    simp only [locked, bind_eq, bind_assoc]
    rfl
  rw [hassoc, alone_hold]
  simp only [alone_expense, alone_hold]
  constructor
  · rintro ⟨-, o₁, ⟨e, he, hin, o', ho', rfl⟩, rfl⟩
    refine ⟨e, he, hin, o', ho', ?_⟩
    simp [Outcome.after, keys, Index.key_of_find? he]
  · rintro ⟨e, he, hin, o', ho', rfl⟩
    refine ⟨Index.contains_eq_true_iff.2 ⟨e, he⟩, _, ⟨e, he, hin, o', ho', rfl⟩, ?_⟩
    simp [Outcome.after, keys, Index.key_of_find? he]

theorem mem_keys_expense (e : SharedLedger.Expense) : (⟨.expenses, e.id⟩ : RowKey) ∈ keys e :=
  List.mem_cons_self ..

theorem mem_keys_group (e : SharedLedger.Expense) : (⟨.groups, e.groupId⟩ : RowKey) ∈ keys e :=
  List.mem_cons_of_mem _ (List.mem_singleton_self _)

/-- Plans that give an expense new shares, where those it has allow it. -/
theorem lawful_of_shares {p : Plan SharesReplaced} (id : Int) (ss : List ShareDraft)
    (allowed : List Share → Prop)
    (h : ∀ {t ids o}, p.alone t ids = .ok o ↔
      ∃ e, t.expenses.find? id = some e ∧ t.groups.contains e.groupId = true ∧
        allowed (t.sharesOf e.id) ∧ Accepts t e ss ∧
        ∃ t', t.replay (resharingJournal t e ids ss) = .ok t' ∧
          o = ⟨⟨(t.sharesOf e.id).length, shareRows e ids ss⟩, keys e, resharingJournal t e ids ss,
            t', ids.drop ss.length⟩) : p.Lawful True := by
  refine lawful_of_repeats ?_ ?_
  · intro T ids o _ hf ho
    obtain ⟨e, he, -, -, hv, t', ht', rfl⟩ := h.1 ho
    rw [replay_resharingJournal ht']
    have he' : T.expenses.find? e.id = some e := by
      rw [Index.key_of_find? he]
      exact he
    exact changes_of_resharing hf (fun _ hi => hi) (.inr (mem_keys_expense e)) (mem_keys_group e)
      he' hv
  · intro V T T' ids o hb _ _ _ ho hr
    obtain ⟨e, he, -, hal, hv, t', -, rfl⟩ := h.1 ho
    have hid : e.id = id := Index.key_of_find? he
    -- expense and group are both locked, so the plan finds on `T` what it found on `V`
    obtain ⟨he', hshares⟩ := hb.expense_kept (hid ▸ he) (mem_keys_expense e) (mem_keys_group e)
    have hj : resharingJournal T e ids ss = resharingJournal V e ids ss := by
      simp only [resharingJournal, deletionOfShares, hshares]
    refine .inl ⟨_, h.2 ⟨e, hid ▸ he', hb.contains_group (mem_keys_group e), ?_,
      (accepts_iff hb (mem_keys_group e)).2 hv, T', ?_, rfl⟩, rfl, rfl⟩
    · rw [hshares]
      exact hal
    · rw [hj]
      exact hr

theorem alone_resharing {id : Int} {o : Outcome SharesReplaced} :
    (resharing id ss).alone t ids = .ok o ↔
      ∃ e, t.expenses.find? id = some e ∧ t.groups.contains e.groupId = true ∧ Accepts t e ss ∧
        ∃ t', t.replay (resharingJournal t e ids ss) = .ok t' ∧
          o = ⟨⟨(t.sharesOf e.id).length, shareRows e ids ss⟩, keys e, resharingJournal t e ids ss,
            t', ids.drop ss.length⟩ := by
  refine alone_locked.trans ?_
  simp only [alone_writeShares]
  constructor
  · rintro ⟨e, he, hin, o', ⟨hv, t', ht', rfl⟩, rfl⟩
    exact ⟨e, he, hin, hv, t', ht', by simp [Outcome.after]⟩
  · rintro ⟨e, he, hin, hv, t', ht', rfl⟩
    exact ⟨e, he, hin, _, ⟨hv, t', ht', rfl⟩, by simp [Outcome.after]⟩

theorem alone_sharing {id : Int} {o : Outcome SharesReplaced} :
    (sharing id ss).alone t ids = .ok o ↔
      ∃ e, t.expenses.find? id = some e ∧ t.groups.contains e.groupId = true ∧
        t.sharesOf e.id = [] ∧ Accepts t e ss ∧
        ∃ t', t.replay (resharingJournal t e ids ss) = .ok t' ∧
          o = ⟨⟨(t.sharesOf e.id).length, shareRows e ids ss⟩, keys e, resharingJournal t e ids ss,
            t', ids.drop ss.length⟩ := by
  have hfree : ∀ (e : SharedLedger.Expense) (o : Outcome SharesReplaced),
      ((ask (.listShares e.id)).bind fun old =>
        if old.isEmpty then writeShares e ss else Plan.refuse (.alreadyShared e.id)).alone t ids =
          .ok o ↔ t.sharesOf e.id = [] ∧ (writeShares e ss).alone t ids = .ok o := by
    intro e o
    refine (alone_query rfl rfl).trans ?_
    simp only [Plan.bind, List.isEmpty_iff]
    split
    · next h => exact ⟨fun ho => ⟨h, ho⟩, And.right⟩
    · next h => exact ⟨fun ho => absurd ho alone_fail, fun ho => absurd ho.1 h⟩
  refine alone_locked.trans ?_
  constructor
  · rintro ⟨e, he, hin, o', ho', rfl⟩
    obtain ⟨hnone, ho'⟩ := (hfree e o').1 ho'
    obtain ⟨hv, t', ht', rfl⟩ := alone_writeShares.1 ho'
    exact ⟨e, he, hin, hnone, hv, t', ht', by simp [Outcome.after]⟩
  · rintro ⟨e, he, hin, hnone, hv, t', ht', rfl⟩
    exact ⟨e, he, hin, _, (hfree e _).2 ⟨hnone, alone_writeShares.2 ⟨hv, t', ht', rfl⟩⟩,
      by simp [Outcome.after]⟩

theorem lawful_resharing (id : Int) (ss : List ShareDraft) : (resharing id ss).Lawful True := by
  refine lawful_of_shares id ss (fun _ => True) fun {t ids o} => ?_
  simp only [true_and]
  exact alone_resharing

theorem lawful_sharing (id : Int) (ss : List ShareDraft) : (sharing id ss).Lawful True :=
  lawful_of_shares id ss (fun old => old = []) alone_sharing

/-! ## Changes -/

/-- What is written when an expense is changed, with its shares if they are
given. -/
def changeJournal (t : Tables) (e : SharedLedger.Expense) (u : ExpenseUpdate) (ids : Stream' Int) :
    List Mutation :=
  .put (.expense (changed e u)) :: givenJournal t (changed e u) ids u.shares

/-- The shares that are left when none are given. -/
theorem alone_changed {e : SharedLedger.Expense} {u : ExpenseUpdate} {id : Int}
    {o : Outcome SharedExpense} (hid : e.id = id) (hin : t.expenses.contains id = true) :
    ((ask (.updateExpense (changed e u))).bind fun e =>
      writeGiven e ((ask (.listShares id)).bind fun ss => .done ⟨e, ss⟩) u.shares).alone t ids =
        .ok o ↔
      AcceptsGiven t (changed e u) u.shares ∧
        ∃ t', t.replay (changeJournal t e u ids) = .ok t' ∧
          o = ⟨u.shares.elim ⟨changed e u, t.sharesOf id⟩
              fun ss => ⟨changed e u, shareRows (changed e u) ids ss⟩, [], changeJournal t e u ids,
            t', ids.drop (u.shares.elim 0 List.length)⟩ := by
  have he : (Call.updateExpense (changed e u)).effect t ids.head =
      .ok ([.put (.expense (changed e u))], changed e u) := by
    refine require_bind_eq_ok.2 ⟨?_, rfl⟩
    rw [← hid] at hin
    exact hin
  refine (alone_write he).trans ?_
  have hask : ∀ t : Tables, ((ask (.listShares id)).bind fun ss =>
      (.done ⟨changed e u, ss⟩ : Plan SharedExpense)).alone t ids =
        .ok ⟨⟨changed e u, t.sharesOf id⟩, [], [], t, ids⟩ := fun t =>
    (alone_query rfl rfl).2 (alone_done.2 rfl)
  constructor
  · rintro ⟨t₁, o₁, h₁, ho₁, rfl⟩
    obtain ⟨hc, rfl⟩ := replay_singleton.1 h₁
    obtain ⟨hv, t', ht', rfl⟩ := (alone_writeGiven (hask _)).1 ho₁
    have hv' := (acceptsGiven_put _ _).1 hv
    have ht'' := (givenJournal_put (changed e u) u.shares) ▸ ht'
    refine ⟨hv', t', replay_cons.2 ⟨hc, ht''⟩, ?_⟩
    simp only [changeJournal, givenJournal_put]
    rfl
  · rintro ⟨hv, t', ht', rfl⟩
    obtain ⟨hc, ht'⟩ := replay_cons.1 ht'
    rw [← givenJournal_put (changed e u)] at ht'
    refine ⟨_, _, replay_singleton.2 ⟨hc, rfl⟩, (alone_writeGiven (hask _)).2
      ⟨(acceptsGiven_put _ _).2 hv, t', ht', rfl⟩, ?_⟩
    simp only [changeJournal, givenJournal_put]
    rfl

/-- An expense may be changed where this leaves no shares behind and its payer
is a member. -/
def Allows (t : Tables) (e : SharedLedger.Expense) (u : ExpenseUpdate) : Prop :=
  (leavesSharesBehind e u = true → t.sharesOf e.id = []) ∧
  (∀ m, u.paidBy = some m → t.HasMember e.groupId m) ∧ AcceptsGiven t (changed e u) u.shares

/-- Refuses to leave shares behind. -/
def requireNoShares (e : SharedLedger.Expense) (u : ExpenseUpdate) (id : Int) : Plan Unit :=
  if leavesSharesBehind e u then
    (ask (.listShares id)).bind fun ss =>
      if !ss.isEmpty then
        Plan.refuse (.field "splits" "Splits required"
          "changing the amount of a transaction with splits requires a replacement split set")
      else .done ()
  else .done ()

/-- Refuses a new payer who is not a member of the group. -/
def requireNewPayer (e : SharedLedger.Expense) (u : ExpenseUpdate) : Plan Unit :=
  match u.paidBy with
  | some m => requirePayer e.groupId m
  | none => .done ()

/-- A change is two checks, a row and shares. -/
theorem change_eq (id : Int) (u : ExpenseUpdate) :
    change id u = (locked id).bind fun e => (requireNoShares e u id).bind fun _ =>
      (requireNewPayer e u).bind fun _ => (ask (.updateExpense (changed e u))).bind fun e' =>
        writeGiven e' ((ask (.listShares id)).bind fun ss => .done ⟨e', ss⟩) u.shares := by
  unfold change
  simp only [bind_eq]
  congr 1
  funext e
  unfold requireNoShares requireNewPayer
  split
  · rw [bind_assoc]
    congr 1
    funext ss
    split <;> cases u.paidBy <;> cases u.shares <;> rfl
  · cases u.paidBy <;> cases u.shares <;> rfl

theorem alone_requireNoShares {α : Type} {id : Int} {u : ExpenseUpdate} {f : Unit → Plan α}
    {o : Outcome α} :
    ((requireNoShares e u id).bind f).alone t ids = .ok o ↔
      (leavesSharesBehind e u = true → t.sharesOf id = []) ∧ (f ()).alone t ids = .ok o := by
  unfold requireNoShares
  split
  · next hl =>
    rw [bind_assoc]
    refine (alone_query rfl rfl).trans ?_
    cases hs : t.sharesOf id with
    | nil => exact ⟨fun ho => ⟨fun _ => rfl, ho⟩, And.right⟩
    | cons s ss => exact ⟨fun ho => absurd ho alone_fail, fun ho => absurd (ho.1 hl) (by simp)⟩
  · next hl => exact ⟨fun ho => ⟨fun h => absurd h hl, ho⟩, And.right⟩

theorem alone_requireNewPayer {α : Type} {u : ExpenseUpdate} {f : Unit → Plan α} {o : Outcome α} :
    ((requireNewPayer e u).bind f).alone t ids = .ok o ↔
      (∀ m, u.paidBy = some m → t.HasMember e.groupId m) ∧ (f ()).alone t ids = .ok o := by
  unfold requireNewPayer
  cases hp : u.paidBy with
  | none => exact ⟨fun ho => ⟨fun m hm => (by cases hm), ho⟩, And.right⟩
  | some m =>
    refine alone_requirePayer.trans (and_congr_left fun _ => ?_)
    exact ⟨fun h m' hm' => by cases hm'; exact h, fun h => h m rfl⟩

theorem alone_change {id : Int} {u : ExpenseUpdate} {o : Outcome SharedExpense} :
    (change id u).alone t ids = .ok o ↔
      ∃ e, t.expenses.find? id = some e ∧ t.groups.contains e.groupId = true ∧ Allows t e u ∧
        ∃ t', t.replay (changeJournal t e u ids) = .ok t' ∧
          o = ⟨u.shares.elim ⟨changed e u, t.sharesOf id⟩
              fun ss => ⟨changed e u, shareRows (changed e u) ids ss⟩, keys e,
            changeJournal t e u ids, t', ids.drop (u.shares.elim 0 List.length)⟩ := by
  rw [change_eq, alone_locked]
  simp only [alone_requireNoShares, alone_requireNewPayer]
  constructor
  · rintro ⟨e, he, hin, o', ⟨hleft, hpayer, ho'⟩, rfl⟩
    have hid : e.id = id := Index.key_of_find? he
    obtain ⟨hv, t', ht', rfl⟩ :=
      (alone_changed hid (Index.contains_eq_true_iff.2 ⟨e, he⟩)).1 ho'
    rw [← hid] at hleft
    exact ⟨e, he, hin, ⟨hleft, hpayer, hv⟩, t', ht', by simp [Outcome.after]⟩
  · rintro ⟨e, he, hin, ⟨hleft, hpayer, hv⟩, t', ht', rfl⟩
    have hid : e.id = id := Index.key_of_find? he
    rw [hid] at hleft
    exact ⟨e, he, hin, _, ⟨hleft, hpayer,
      (alone_changed hid (Index.contains_eq_true_iff.2 ⟨e, he⟩)).2 ⟨hv, t', ht', rfl⟩⟩,
      by simp [Outcome.after]⟩

/-- The row of a changed expense may be put in where no shares are left or the
amount is the same. -/
theorem change_putChanged {u : ExpenseUpdate} (ht : t.Consistent)
    (he : t.expenses.find? e.id = some e) (hamount : ∀ a, u.amount = some a → 0 ≤ a.value)
    (hpayer : ∀ m, u.paidBy = some m → t.HasMember e.groupId m)
    (hshares : t.sharesOf e.id = [] ∨ e.amount.value = (changed e u).amount.value)
    (hheld : ∀ key ∈ keys e, held key) :
    Change new held t { t with expenses := t.expenses.put (changed e u) } := by
  have hmem : e ∈ t.expenses.toList := Index.mem_of_find? he
  refine .putExpense _ (.inr ⟨hheld _ (mem_keys_expense e), e, he, rfl, hshares⟩)
    (hheld _ (mem_keys_group e)) (ht.expense_group e hmem) ?_ ?_
  · unfold changed
    cases hp : u.paidBy with
    | none => exact ht.expense_payer e hmem
    | some m => exact hpayer m hp
  · unfold changed
    cases ha : u.amount with
    | none => exact ht.expense_amount e hmem
    | some a => exact hamount a ha

/-- A change that gives no shares leaves none behind, or leaves the amount. -/
theorem sharesOf_or_amount_eq {u : ExpenseUpdate} (hnone : u.shares = none)
    (hleft : leavesSharesBehind e u = true → t.sharesOf e.id = []) :
    t.sharesOf e.id = [] ∨ e.amount.value = (changed e u).amount.value := by
  unfold changed
  cases ha : u.amount with
  | none => exact .inr rfl
  | some a =>
    by_cases hsame : a.sameAs e.amount = true
    · exact .inr (Decimal.sameAs_iff.1 hsame).symm
    · refine .inl (hleft ?_)
      simp [leavesSharesBehind, ha, hnone, hsame]

theorem lawful_change (id : Int) {u : ExpenseUpdate}
    (hamount : ∀ a, u.amount = some a → 0 ≤ a.value) : (change id u).Lawful True := by
  refine lawful_of_repeats ?_ ?_
  · intro T ids o hT hf ho
    obtain ⟨e, he, -, ⟨hleft, hpayer, hv⟩, t', ht', rfl⟩ := alone_change.1 ho
    obtain ⟨-, ht'⟩ := replay_cons.1 ht'
    have he' : T.expenses.find? e.id = some e := by
      rw [Index.key_of_find? he]
      exact he
    cases hs : u.shares with
    | none =>
      rw [hs] at ht'
      cases ht'
      exact .single (change_putChanged hT he' hamount hpayer (sharesOf_or_amount_eq hs hleft)
        fun _ hk => hk)
    | some ss =>
      rw [hs] at hv ht'
      rw [replay_resharingJournal ht']
      -- the old shares are taken out first: they do not fit the new amount
      let T₁ := T.dropShares fun s => s.expenseId == e.id
      have hdrop : Change (Supplied ids) (· ∈ keys e) T T₁ :=
        .dropShares e.id (.inr (mem_keys_expense e))
      have hT₁ : T₁.Consistent := hdrop.consistent hT
      have hput : Change (fun _ => False) (· ∈ keys e) T₁
          { T₁ with expenses := T₁.expenses.put (changed e u) } :=
        change_putChanged hT₁ he' hamount hpayer (.inl (sharesOf_dropShares_self T e.id))
          fun _ hk => hk
      have hf₂ := (fresh_dropShares hf e.id).of_change hput
      refine .tail (.tail (.single hdrop) (hput.mono (fun _ => False.elim) fun _ hk => hk)) ?_
      refine change_putShares hf₂ (fun _ hi => hi) (.inr (mem_keys_expense e)) (mem_keys_group e)
        ?_ (sharesOf_dropShares_self T e.id) hv
      exact Index.find?_put_self _ _
  · intro V T T' ids o hb _ _ _ ho hr
    obtain ⟨e, he, -, ⟨hleft, hpayer, hv⟩, t', -, rfl⟩ := alone_change.1 ho
    have hid : e.id = id := Index.key_of_find? he
    obtain ⟨he', hshares⟩ := hb.expense_kept (hid ▸ he) (mem_keys_expense e) (mem_keys_group e)
    have hshares' : T.sharesOf (changed e u).id = V.sharesOf (changed e u).id := hshares
    have hg : (⟨.groups, (changed e u).groupId⟩ : RowKey) ∈ keys e := mem_keys_group e
    have hj : changeJournal T e u ids = changeJournal V e u ids :=
      congrArg (_ :: ·) (givenJournal_congr hshares' _)
    refine .inl ⟨_, alone_change.2 ⟨e, hid ▸ he', hb.contains_group (mem_keys_group e),
      ⟨?_, ?_, ?_⟩, T', ?_, rfl⟩, rfl, rfl⟩
    · rw [hshares]
      exact hleft
    · exact fun m hm => (hb.hasMember_iff (mem_keys_group e)).2 (hpayer m hm)
    · exact (acceptsGiven_iff hb hg _).2 hv
    · rw [hj]
      exact hr

/-! ## Taking shares away -/

/-- Deleting the shares of an expense. -/
theorem alone_deleteShares {α : Type} {id : Int} {f : Nat → Plan α} {o : Outcome α} :
    ((ask (.deleteShares id)).bind f).alone t ids = .ok o ↔
      ∃ o', (f (t.sharesOf id).length).alone (t.dropShares fun s => s.expenseId == id) ids =
        .ok o' ∧ o = o'.after [] (t.deletionOfShares id) := by
  refine (alone_write rfl).trans ?_
  rw [replay_deletionOfShares]
  constructor
  · rintro ⟨t', o', ht', ho', rfl⟩
    cases ht'
    exact ⟨o', ho', rfl⟩
  · rintro ⟨o', ho', rfl⟩
    exact ⟨_, o', rfl, ho', rfl⟩

theorem alone_unsharing {id : Int} {o : Outcome Nat} :
    (unsharing id).alone t ids = .ok o ↔
      t.expenses.contains id = true ∧
        o = ⟨(t.sharesOf id).length, [⟨.expenses, id⟩], t.deletionOfShares id,
          t.dropShares fun s => s.expenseId == id, ids⟩ := by
  refine alone_hold.trans ?_
  constructor
  · rintro ⟨hin, o', ho', rfl⟩
    obtain ⟨ms, r, t', he, ht', rfl⟩ := alone_ask.1 ho'
    cases he
    rw [replay_deletionOfShares] at ht'
    cases ht'
    exact ⟨hin, rfl⟩
  · rintro ⟨hin, rfl⟩
    exact ⟨hin, _, alone_ask.2 ⟨_, _, _, rfl, replay_deletionOfShares t id, rfl⟩, rfl⟩

theorem alone_deletion {id : Int} {o : Outcome Nat} :
    (deletion id).alone t ids = .ok o ↔
      t.expenses.contains id = true ∧
        o = ⟨(t.sharesOf id).length, [⟨.expenses, id⟩], t.deletionOfExpense id,
          (t.dropShares fun s => s.expenseId == id).enact (.delete .expenses id), ids⟩ := by
  refine alone_hold.trans ?_
  -- by then the expense has no shares left that would be deleted with it
  have he : t.expenses.contains id = true → ∀ n,
      (Call.deleteExpense id).effect (t.dropShares fun s => s.expenseId == id) n =
        .ok ([.delete .expenses id], ()) := by
    intro hin n
    have hnone := sharesOf_dropShares_self t id
    refine require_bind_eq_ok.2 ⟨hin, ?_⟩
    simp only [deletionOfExpense, deletionOfShares, hnone, List.map_nil, List.nil_append]
  constructor
  · rintro ⟨hin, o', ho', rfl⟩
    obtain ⟨o₁, ho₁, rfl⟩ := alone_deleteShares.1 ho'
    obtain ⟨t₂, o₂, ht₂, ho₂, rfl⟩ := (alone_write (he hin _)).1 ho₁
    obtain ⟨-, rfl⟩ := replay_singleton.1 ht₂
    rw [alone_done.1 ho₂]
    exact ⟨hin, rfl⟩
  · rintro ⟨hin, rfl⟩
    exact ⟨hin, _, alone_deleteShares.2 ⟨_, (alone_write (he hin _)).2 ⟨_, _,
      replay_singleton.2 ⟨rfl, rfl⟩, alone_done.2 rfl, rfl⟩, rfl⟩, rfl⟩

/-- Plans that take something away from an expense under its lock alone, and
find nothing to be taken away once it is gone. -/
theorem lawful_of_taking {p : Plan Nat} (id : Int) (journal : Tables → List Mutation)
    (after : Tables → Tables)
    (h : ∀ {t ids o}, p.alone t ids = .ok o ↔ t.expenses.contains id = true ∧
      o = ⟨(t.sharesOf id).length, [⟨.expenses, id⟩], journal t, after t, ids⟩)
    (hchanges : ∀ {new : Int → Prop} (t : Tables),
      Changes new (· ∈ [(⟨.expenses, id⟩ : RowKey)]) t (after t))
    (hsame : ∀ {V T : Tables}, T.sharesOf id = V.sharesOf id → journal T = journal V)
    (hgone : ∀ {V T T' : Tables} {locked : List RowKey}, Base locked V T → T.Consistent →
      T.expenses.contains id = false → T.replay (journal V) = .ok T' → T' = T) :
    p.Lawful True := by
  refine lawful_of_repeats ?_ ?_
  · intro T ids o _ _ ho
    obtain ⟨-, rfl⟩ := h.1 ho
    exact hchanges T
  · intro V T T' ids o hb hT _ _ ho hr
    obtain ⟨hin, rfl⟩ := h.1 ho
    have hkept : ExpenseKept V T id := hb.kept ⟨.expenses, id⟩ (List.mem_singleton_self _)
    -- the group may be gone, as it is not locked, and the expense with it
    rcases hkept with ⟨hrow, hshares⟩ | ⟨hnone, -⟩
    · have hin' : T.expenses.contains id = true := (Index.contains_congr hrow).trans hin
      exact repeats_of_journal (h.2 ⟨hin', rfl⟩) rfl (hsame hshares) hr
    · refine .inr ⟨fun o' ho' => ?_, hgone hb hT hnone hr⟩
      have hin' := (h.1 ho').1
      rw [hnone] at hin'
      cases hin'

/-- **Nothing is left to be taken away** of an expense that is gone: the shares
that were to be deleted are not there. -/
theorem replay_of_gone {locked : List RowKey} {id : Int} (hb : Base locked V T)
    (hT : T.Consistent) (hgone : T.expenses.contains id = false) :
    T.replay (V.deletionOfShares id) = .ok T ∧ T.enact (.delete .expenses id) = T := by
  constructor
  · refine (replay_delete_shares (V.sharesOf id)).trans (congrArg Except.ok ?_)
    have hkeep : T.shares.filter (fun s => !(V.sharesOf id).any fun r => r.id == s.id) = T.shares := by
      refine Index.ext_mem fun s => ?_
      rw [Index.mem_filter]
      refine ⟨And.left, fun hs => ⟨hs, ?_⟩⟩
      by_contra hin
      rw [Bool.not_eq_true, Bool.not_eq_false', List.any_eq_true] at hin
      obtain ⟨r, hr, hid⟩ := hin
      obtain ⟨hr, hre⟩ := mem_sharesOf.1 hr
      -- a share of that id would be the one that was seen, and its expense would exist
      have hsr : s = r := hb.descends.share r hr s hs (beq_iff_eq.1 hid).symm
      obtain ⟨e, he, heid, -⟩ := hT.expense_of_share hs
      refine Index.ne_of_contains_eq_false hgone he (heid.trans ?_)
      rw [hsr]
      exact hre
    unfold dropShares
    rw [hkeep]
  · have hkeep : T.expenses.erase id = T.expenses := by
      refine Index.ext_mem fun e => ?_
      rw [Index.mem_erase]
      exact ⟨And.left, fun he => ⟨he, Index.ne_of_contains_eq_false hgone he⟩⟩
    show { T with expenses := T.expenses.erase id } = T
    rw [hkeep]

theorem lawful_unsharing (id : Int) : (unsharing id).Lawful True := by
  refine lawful_of_taking id (fun t => t.deletionOfShares id)
    (fun t => t.dropShares fun s => s.expenseId == id) alone_unsharing (fun t => ?_)
    (fun hs => ?_) fun hb hT hnone hr => ?_
  · exact .single (.dropShares id (.inr (List.mem_singleton_self _)))
  · simp only [deletionOfShares, hs]
  · rw [(replay_of_gone hb hT hnone).1] at hr
    exact (Except.ok.inj hr).symm

theorem lawful_deletion (id : Int) : (deletion id).Lawful True := by
  refine lawful_of_taking id (fun t => t.deletionOfExpense id)
    (fun t => (t.dropShares fun s => s.expenseId == id).enact (.delete .expenses id))
    alone_deletion (fun t => ?_) (fun hs => ?_) fun hb hT hnone hr => ?_
  · have hheld : (⟨.expenses, id⟩ : RowKey) ∈ [(⟨.expenses, id⟩ : RowKey)] :=
      List.mem_singleton_self _
    exact .tail (.single (.dropShares id (.inr hheld)))
      (.eraseExpense id hheld (sharesOf_dropShares_self t id))
  · simp only [deletionOfExpense, deletionOfShares, hs]
  · obtain ⟨t₁, h₁, h₂⟩ := replay_append.1 hr
    obtain ⟨hdel, herase⟩ := replay_of_gone hb hT hnone
    rw [hdel] at h₁
    cases h₁
    obtain ⟨-, rfl⟩ := replay_singleton.1 h₂
    exact herase

end Expense

end SharedLedger
