import SharedLedger.Proofs.Confined
import SharedLedger.Proofs.Driven
import SharedLedger.Proofs.Links

/-!
# Neighbours

What is done in one group does not concern the others. An action changes
nothing outside the group of the thing it is about, and so the balances of the
other groups stay what they are (`System.neighbours_undisturbed`). That the
balances follow from the rows rests on the invariant of the tables: whoever has
paid for something in a group, or owes a share of it, is a member of that group,
so no debt of one group goes through a member of another.
-/

namespace SharedLedger

open Tables
open scoped Stream'

namespace Tables

variable {t t' : Tables} {g k : Int}

/-! ## Tables with the same rows of a group -/

/-- Two tables have the same rows of a group: the group itself, its members, its
expenses and their shares. -/
structure SameGroup (t t' : Tables) (g : Int) : Prop where
  group : t'.groups.find? g = t.groups.find? g
  membersOf : t'.membersOf g = t.membersOf g
  expensesOf : t'.expensesOf g = t.expensesOf g
  sharesOf : ∀ e ∈ t.expensesOf g, t'.sharesOf e.id = t.sharesOf e.id

theorem SameOutside.sameGroup (h : t.SameOutside t' g) (hk : k ≠ g) : t.SameGroup t' k where
  group := h.group k hk
  membersOf :=
    Index.toList_filter_congr fun m hm => h.member m fun hg => hk ((beq_iff_eq.1 hm).symm.trans hg)
  expensesOf :=
    Index.toList_filter_congr fun e he => h.expense e fun hg => hk ((beq_iff_eq.1 he).symm.trans hg)
  sharesOf e he := by
    obtain ⟨hmem, rfl⟩ := mem_expensesOf.1 he
    exact Index.toList_filter_congr fun s hs => h.share e hmem hk s (beq_iff_eq.1 hs)

/-- So the links are the same as well. -/
theorem SameGroup.restricts (h : t.SameGroup t' g) : t.Restricts t' g fun _ => true where
  expensesOf := h.expensesOf
  sharesOf := h.sharesOf
  hasMember id := by rw [hasMember_iff_mem, hasMember_iff_mem, h.membersOf]
  linkedUser? id hm := by
    obtain ⟨m, hm, hg⟩ := hm
    have hid : m.id = id := Index.key_of_find? hm
    have hmem : m ∈ t'.membersOf g := h.membersOf ▸ mem_membersOf.2 ⟨Index.mem_of_find? hm, hg⟩
    have hm' : t'.members.find? id = some m := hid ▸ Index.find?_of_mem (mem_membersOf.1 hmem).1
    rw [linkedUser?_of_find hm, linkedUser?_of_find hm']
    cases m.userId <;> rfl

theorem SameGroup.owedRows_eq (h : t.SameGroup t' g) (ht : t.Consistent) :
    t'.owedRows g = t.owedRows g :=
  h.restricts.owedRows_eq_self ht

/-! ## Balances of other groups -/

/-- **Only one group was concerned.** All rows outside of it are the same, and so
is all that comes of them in the other groups: what is owed, in pairs and in
nets. -/
structure Undisturbed (t t' : Tables) (g : Int) : Prop where
  rows : t.SameOutside t' g
  owedRows : ∀ k, k ≠ g → t'.owedRows k = t.owedRows k
  balances : ∀ k, k ≠ g → (Statement.pairsAndNets k).read t' = (Statement.pairsAndNets k).read t

theorem SameOutside.undisturbed (h : t.SameOutside t' g) (ht : t.Consistent) :
    t.Undisturbed t' g where
  rows := h
  owedRows k hk := (h.sameGroup hk).owedRows_eq ht
  balances k hk := by
    rw [Statement.read_pairsAndNets, Statement.read_pairsAndNets,
      (h.sameGroup hk).owedRows_eq ht, (h.sameGroup hk).membersOf]

end Tables

namespace System

variable {service : Service} {sys : System} {i : Nat} {x : Session}

/-! ## Actions on their way -/

/-- **A step of a command changes nothing outside the group** of the thing the
command is confined to, as that thing is just then. -/
theorem Sound.sameOutside_turn (h : Sound service sys) (hx : sys.sessions i = some x) {r : Resource}
    (hop : (service.operation x.now x.command).ConfinedTo r) (hname : x.command.Explicit)
    {s' : Store} {run' : Run x.command.Reply} (ht : Run.Turn x.client sys.store x.run s' run') :
    s'.tables = sys.store.tables ∨
      ∃ g, sys.store.tables.owner? r = some g ∧ sys.store.tables.SameOutside s'.tables g := by
  rcases ht.tables_eq_or with ⟨htables, -⟩ | ⟨β, t, a, next, hrun, -, hv, -⟩
  · exact .inl htables
  · obtain ⟨body, hl, -, hexact⟩ := h.committed hx hrun hv
    cases hop.leads hl with
    | transaction hb _ =>
      have hbody := hb.tablesAfter (h.fresh hx h.known)
      rw [hexact hname] at hbody
      exact hbody

open Run in
/-- **An action that takes its steps alone** has changed nothing outside the
group, wherever it has got to. -/
theorem Reachable.sameOutside (h : Reachable service sys) {client : Client} {now : Nat}
    {caller g : Int} {a : Action} (hg : sys.store.tables.owner? a.resource = some g)
    {js : List Mutation} {s' : Store} {run' : Run a.Reply}
    (he : Execution client sys.store (.outside (service.operation now (.act caller a))) js s' run') :
    sys.store.tables.SameOutside s'.tables g := by
  obtain ⟨n, hn⟩ := h.exists_free
  have hstart := h.step (.start n client now (.act caller a) (hn n le_rfl))
  induction he with
  | start => exact .refl _ g
  | @step js s₁ run₁ he ih =>
    have hacc := he.accounted (.outside (service.writesLast_operation now (.act caller a)))
    cases hacc with
    | pending ht _ _ =>
      -- nothing was changed so far, so the thing is still in its group
      obtain ⟨_, _, hreach⟩ := Reachable.execution he hstart
      have hturn := hreach.sound.sameOutside_turn (set_sessions_self ..) (a.confinedTo_on caller)
        trivial (step_turn (Prod.eta _).symm)
      simp only [set_store, ht, hg, Option.some.injEq] at hturn
      rcases hturn with heq | ⟨_, rfl, hsame⟩
      · rw [heq]
        exact .refl _ g
      · exact hsame
    | nothing | everything => exact ih
  | @disturbed js s₁ run₁ d _ ih =>
    rw [s₁.tables_disturb]
    exact ih

/-- **Other groups are undisturbed** by an action on a thing of the group `g`, in
every system that can come about. If the action takes its steps alone, then
wherever it has got to, and so at its end, all that has changed is in `g`. If it
takes its steps among those of others, each of them changes nothing or nothing
but what is in the group the thing belongs to at that moment. In either case the
balances of all other groups stay what they are. -/
theorem neighbours_undisturbed (h : Reachable service sys) (caller : Int) (a : Action) :
    (∀ (g : Int), sys.store.tables.owner? a.resource = some g →
      ∀ (client : Client) (now : Nat) (js : List Mutation) (s' : Store) (run' : Run a.Reply),
        Run.Execution client sys.store (.outside (service.operation now (.act caller a))) js s' run' →
        sys.store.tables.Undisturbed s'.tables g) ∧
    (∀ (i : Nat) (x : Session), sys.sessions i = some x → x.command = .act caller a →
      (sys.turn i).store.tables = sys.store.tables ∨
        ∃ g, sys.store.tables.owner? a.resource = some g ∧
          sys.store.tables.Undisturbed (sys.turn i).store.tables g) := by
  have hcons := h.sound.consistent
  constructor
  · intro g hg client now js s' run' he
    exact (h.sameOutside hg he).undisturbed hcons
  · rintro i ⟨client, now, c, run, opened, drawn⟩ hx hc
    obtain rfl : c = .act caller a := hc
    have hturn : (sys.turn i).store.tables = (run.step client sys.store).1.tables := by
      unfold turn
      rw [hx]
      rfl
    rw [hturn]
    refine (h.sound.sameOutside_turn hx (a.confinedTo_on caller) trivial
      (Run.step_turn (Prod.eta _).symm)).imp_right ?_
    rintro ⟨g, hg, hsame⟩
    exact ⟨g, hg, hsame.undisturbed hcons⟩

end System

namespace Sample

/-- A fee of fifty that the member 10 paid and shares with the member 11. -/
def fee : ExpenseDraft :=
  { dinner with
    name := "Fee"
    amount := cents 5000 (by decide)
    paidBy := 10
    shares := some [half 10 (cents 2500 (by decide)), half 11 (cents 2500 (by decide))] }

/-- The small ledger with a second group, in which something is owed as well. -/
def clubbing : System :=
  let system := trip.given service 5 client (.createGroup 2 ⟨"Club", some "Bea"⟩)
  let system := (system.turns (.replicate 6 5)).given service 6 client
    (.act 2 (.addMember 9 ⟨"Ada", some 1⟩))
  let system := (system.turns (.replicate 12 6)).given service 7 client
    (.act 2 (.createExpense 9 fee))
  system.turns (.replicate 20 7)

theorem reachable_clubbing : System.Reachable service clubbing :=
  reachable_trip.given 5 _ _ |>.turns _ |>.given 6 _ _ |>.turns _ |>.given 7 _ _ |>.turns _

/-- What is left of it when the first group is deleted. -/
def clubOnly : Store :=
  ((service.operation 0 (.act 1 (.deleteGroup 3))).run client clubbing.store).1

end Sample

namespace System

/-- The first group is deleted, and in the second one Ada owes Bea twenty-five as
before. -/
theorem neighbours_undisturbed_clubOnly :
    Sample.clubOnly.tables.groups.contains 3 = false ∧
      Sample.clubbing.store.tables.Undisturbed Sample.clubOnly.tables 3 ∧
      (Sample.clubOnly.tables.owedRows 9).map (fun o => (o.creditor, o.debtor, o.amount.value)) =
        [(2, 1, 25)] := by
  have hresult : ((Sample.service.operation 0 (.act 1 (.deleteGroup 3))).run Sample.client
      Sample.clubbing.store).2 = some (.ok ()) := by decide +kernel
  obtain ⟨js, he⟩ := Operation.reaches_run hresult
  have hsame : Sample.clubbing.store.tables.Undisturbed Sample.clubOnly.tables 3 :=
    (neighbours_undisturbed Sample.reachable_clubbing 1 (.deleteGroup 3)).1 3 (by decide +kernel)
      Sample.client 0 js Sample.clubOnly _ he
  refine ⟨by decide +kernel, hsame, ?_⟩
  rw [hsame.owedRows 9 (by decide)]
  decide +kernel

end System

end SharedLedger
