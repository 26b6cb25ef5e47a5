import SharedLedger.Ledger.Action

/-!
# Plans that only ask

Authorization, look-ups and statements only ask questions. Their plans write
nothing and need no locks (`Plan.ReadOnly`).
-/

namespace SharedLedger

/-- A call that writes nothing. -/
def Call.Reads (c : Call) : Prop :=
  ∀ view n ms r, c.effect view n = .ok (ms, r) → ms = []

theorem Call.reads_of_effect {c : Call} (h : ∀ view n, ∃ r, c.effect view n = .ok ([], r)) :
    c.Reads := by
  intro view n ms r he
  obtain ⟨r', hr'⟩ := h view n
  rw [hr'] at he
  cases he
  rfl

namespace Plan

variable {α β : Type}

/-- A plan that makes calls which write nothing, and needs no locks. -/
inductive ReadOnly : Plan α → Prop
  | done (a : α) : ReadOnly (.done a)
  | fail (e : Failure) : ReadOnly (.fail e)
  | call {c : Call} {next : c.Reply → Plan α} (hc : c.Reads) (h : ∀ r, (next r).ReadOnly) :
      ReadOnly (.call c next)

theorem ReadOnly.bind {p : Plan α} {f : α → Plan β} (hp : p.ReadOnly) (hf : ∀ a, (f a).ReadOnly) :
    (p >>= f).ReadOnly := by
  induction hp with
  | done a => exact hf a
  | fail e => exact .fail e
  | call hc _ ih => exact .call hc ih

theorem readOnly_ask {c : Call} (h : ∀ view n, ∃ r, c.effect view n = .ok ([], r)) :
    (ask c).ReadOnly :=
  .call (Call.reads_of_effect h) .done

theorem readOnly_orRefuse (e : LedgerError) (x : Option α) : (orRefuse e x).ReadOnly := by
  cases x with
  | none => exact .fail _
  | some a => exact .done a

theorem readOnly_ofExcept (x : Except Failure α) : (ofExcept x).ReadOnly := by
  cases x with
  | ok a => exact .done a
  | error e => exact .fail e

theorem readOnly_user (id : Int) : (user id).ReadOnly :=
  .bind (readOnly_ask fun _ _ => ⟨_, rfl⟩) (readOnly_orRefuse _)

theorem readOnly_group (id : Int) : (group id).ReadOnly :=
  .bind (readOnly_ask fun _ _ => ⟨_, rfl⟩) (readOnly_orRefuse _)

theorem readOnly_member (id : Int) : (member id).ReadOnly :=
  .bind (readOnly_ask fun _ _ => ⟨_, rfl⟩) (readOnly_orRefuse _)

theorem readOnly_expense (id : Int) : (expense id).ReadOnly :=
  .bind (readOnly_ask fun _ _ => ⟨_, rfl⟩) (readOnly_orRefuse _)

theorem readOnly_share (id : Int) : (share id).ReadOnly :=
  .bind (readOnly_ask fun _ _ => ⟨_, rfl⟩) (readOnly_orRefuse _)

end Plan

namespace Access

theorem readOnly_owningGroup (resource : Resource) : (owningGroup resource).ReadOnly := by
  cases resource with
  | group id => exact .bind (Plan.readOnly_group id) fun _ => .done _
  | member id => exact .bind (Plan.readOnly_member id) fun _ => .done _
  | expense id => exact .bind (Plan.readOnly_expense id) fun _ => .done _
  | share id =>
    exact .bind (Plan.readOnly_share id) fun _ => .bind (Plan.readOnly_expense _) fun _ => .done _

theorem readOnly_isMember (groupId userId : Int) : (isMember groupId userId).ReadOnly :=
  .bind (Plan.readOnly_ask fun _ _ => ⟨_, rfl⟩) fun _ => .done _

end Access

theorem Expense.readOnly_requirePayer (groupId memberId : Int) :
    (requirePayer groupId memberId).ReadOnly := by
  refine .bind (Plan.readOnly_ask fun _ _ => ⟨_, rfl⟩) fun m => ?_
  cases m with
  | none => exact .fail _
  | some m =>
    by_cases h : m.groupId = groupId
    · simp only [h, if_true]
      exact .done _
    · simp only [h, if_false]
      exact .fail _

theorem Group.readOnly_groupsOf (ms : List Member) : (groupsOf ms).ReadOnly := by
  induction ms with
  | nil => exact .done _
  | cons m ms ih =>
    refine .bind (Plan.readOnly_ask fun _ _ => ⟨_, rfl⟩) fun g => ?_
    cases g with
    | none => exact ih
    | some g => exact .bind ih fun _ => .done _

namespace Statement

theorem readOnly_pairs (groupId : Int) : (pairs groupId).ReadOnly :=
  .bind (Plan.readOnly_ask fun _ _ => ⟨_, rfl⟩) fun _ => Plan.readOnly_ofExcept _

theorem readOnly_pairsAndNets (groupId : Int) : (pairsAndNets groupId).ReadOnly :=
  .bind (readOnly_pairs groupId) fun _ => .bind (Plan.readOnly_ask fun _ _ => ⟨_, rfl⟩) fun _ =>
    .bind (Plan.readOnly_ofExcept _) fun _ => .done _

theorem readOnly_pairsOf (ms : List Member) : (pairsOf ms).ReadOnly := by
  induction ms with
  | nil => exact .done _
  | cons m ms ih => exact .bind (readOnly_pairs m.groupId) fun _ => .bind ih fun _ => .done _

theorem readOnly_paidBy (ms : List Member) : (paidBy ms).ReadOnly := by
  induction ms with
  | nil => exact .done _
  | cons m ms ih =>
    exact .bind (Plan.readOnly_ask fun _ _ => ⟨_, rfl⟩) fun _ => .bind ih fun _ => .done _

theorem readOnly_owedIn (memberId : Int) (es : List Expense) : (owedIn memberId es).ReadOnly := by
  induction es with
  | nil => exact .done _
  | cons e es ih =>
    exact .bind (Plan.readOnly_ask fun _ _ => ⟨_, rfl⟩) fun _ => .bind ih fun _ => .done _

theorem readOnly_owedBy (ms : List Member) : (owedBy ms).ReadOnly := by
  induction ms with
  | nil => exact .done _
  | cons m ms ih =>
    exact .bind (Plan.readOnly_ask fun _ _ => ⟨_, rfl⟩) fun _ =>
      .bind (readOnly_owedIn m.id _) fun _ => .bind ih fun _ => .done _

end Statement

end SharedLedger
