import SharedLedger.Proofs.Atomicity
import Mathlib.Logic.Function.Basic

/-!
# Commands side by side

A `System` is a store and the commands that are on their way on it, one per
`Session`. They take their steps in turns, in any order; new ones start at any
time, others are given up, and anything may disturb the store meanwhile. The
request for a lock and the refresh that follows once the lock is got are
separate steps, so others may commit in between.

A session notes, beside what runs, how its open transaction began and which
ids it has drawn since. Nothing that runs depends on these notes.
-/

namespace SharedLedger

/-- A command on its way. -/
structure Session where
  client : Client
  /-- When the command was given. -/
  now : Nat
  command : Command
  run : Run command.Reply
  /-- The open transaction, as it was when it was opened. -/
  opened : Option (Σ β : Type, Plan β)
  /-- The ids drawn in the open transaction, in order. -/
  drawn : List Int

/-- The open transaction as it was opened, after a step of the run. -/
def Run.noteOpened {α : Type} (run : Run α) (opened : Option (Σ β : Type, Plan β)) :
    Option (Σ β : Type, Plan β) :=
  match run with
  | outside (.transaction body _) => some ⟨_, body⟩
  | _ => opened

/-- The ids drawn in the open transaction, after a step to the run from one
store to the next. -/
def Run.noteDrawn {α : Type} (s s' : Store) (run : Run α) (drawn : List Int) : List Int :=
  match run.txn? with
  | none => []
  | some _ => drawn ++ if s'.nextId = s.nextId then [] else [s.nextId]

section Abandon

variable {α : Type} (s : Store) (run : Run α)

/-- Giving up changes no rows. -/
theorem Run.tables_abandon : (run.abandon s).tables = s.tables := by
  unfold abandon
  split <;> rfl

/-- Giving up uses up no ids. -/
theorem Run.nextId_abandon : (run.abandon s).nextId = s.nextId := by
  unfold abandon
  split <;> rfl

end Abandon

namespace Session

/-- A command that was just given. -/
def start (service : Service) (client : Client) (now : Nat) (c : Command) : Session :=
  ⟨client, now, c, .outside (service.operation now c), none, []⟩

/-- A session after a step from one store to the next. -/
def moved (x : Session) (s s' : Store) (run : Run x.command.Reply) : Session :=
  ⟨x.client, x.now, x.command, run, x.run.noteOpened x.opened, run.noteDrawn s s' x.drawn⟩

end Session

/-- A store and the commands that are on their way on it. -/
structure System where
  store : Store
  sessions : Nat → Option Session

namespace System

/-- A new store that nobody uses yet. -/
def initial : System := ⟨.empty, fun _ => none⟩

/-- The system with one session exchanged, and the store after that. -/
def set (sys : System) (s : Store) (i : Nat) (x : Option Session) : System :=
  ⟨s, Function.update sys.sessions i x⟩

/-- **What can happen next.** -/
inductive Step (service : Service) (sys : System) : System → Prop
  /-- A command is given. -/
  | start (i : Nat) (client : Client) (now : Nat) (c : Command) (hi : sys.sessions i = none) :
      Step service sys (sys.set sys.store i (some (.start service client now c)))
  /-- A session takes a step. -/
  | turn (i : Nat) (x : Session) (hx : sys.sessions i = some x) :
      Step service sys (sys.set (x.run.step x.client sys.store).1 i
        (some (x.moved sys.store (x.run.step x.client sys.store).1 (x.run.step x.client sys.store).2)))
  /-- A session asks for a lock, and waits for it even where it is free. -/
  | request (i : Nat) (x : Session) (hx : sys.sessions i = some x) {β : Type} {t : Txn}
      {key : RowKey} {plan : Plan β} {next : Except LedgerError β → Operation x.command.Reply}
      (hrun : x.run = .inside t (.lock key plan) next) {s : Store}
      (hallow : sys.store.allow t.client "lock_row" = (.ok (), s))
      (hq : (key, t.id) ∉ s.lockQueue) :
      Step service sys (sys.set { s with lockQueue := s.lockQueue ++ [(key, t.id)] } i
        (some (x.moved sys.store { s with lockQueue := s.lockQueue ++ [(key, t.id)] }
          (.waiting t key plan next))))
  /-- A session is given up, or has its result and goes. -/
  | leave (i : Nat) (x : Session) (hx : sys.sessions i = some x) :
      Step service sys (sys.set (x.run.abandon sys.store) i none)
  /-- A client goes away or a fault is set up. -/
  | disturb (d : Disturbance) : Step service sys { sys with store := sys.store.disturb d }

/-- The systems that can come about. -/
inductive Reachable (service : Service) : System → Prop
  | initial : Reachable service .initial
  | step {sys sys' : System} (h : Reachable service sys) (hs : Step service sys sys') :
      Reachable service sys'

variable {service : Service} {sys : System}

@[simp] theorem set_store (s : Store) (i : Nat) (x : Option Session) :
    (sys.set s i x).store = s := rfl

theorem set_sessions_self (s : Store) (i : Nat) (x : Option Session) :
    (sys.set s i x).sessions i = x := by
  simp [set]

theorem set_sessions_of_ne {i j : Nat} (hne : j ≠ i) (s : Store) (x : Option Session) :
    (sys.set s i x).sessions j = sys.sessions j := by
  simp [set, hne]

theorem set_set (s s' : Store) (i : Nat) (x y : Option Session) :
    (sys.set s i x).set s' i y = sys.set s' i y := by
  simp [set]

/-- There is always room for one more session. -/
theorem Reachable.exists_free (h : Reachable service sys) : ∃ n, ∀ i, n ≤ i → sys.sessions i = none := by
  induction h with
  | initial => exact ⟨0, fun _ _ => rfl⟩
  | @step sys _ _ hs ih =>
    obtain ⟨n, hn⟩ := ih
    have set (j : Nat) (s : Store) (ox : Option Session) :
        ∃ n, ∀ i, n ≤ i → (sys.set s j ox).sessions i = none := by
      refine ⟨max n (j + 1), fun i hi => ?_⟩
      rw [set_sessions_of_ne (by omega)]
      exact hn i (by omega)
    cases hs with
    | start j | turn j | request j | leave j => exact set j _ _
    | disturb d => exact ⟨n, hn⟩

/-! ## One command after the other -/

open Run in
/-- A command that takes its steps alone is one way for the system to go. -/
theorem Reachable.execution {client : Client} {now : Nat} {c : Command} {i : Nat}
    {run run' : Run c.Reply} {opened : Option (Σ β : Type, Plan β)} {drawn : List Int} {s s' : Store}
    {js : List Mutation} (he : Execution client s run js s' run')
    (h : Reachable service (sys.set s i (some ⟨client, now, c, run, opened, drawn⟩))) :
    ∃ opened' drawn',
      Reachable service (sys.set s' i (some ⟨client, now, c, run', opened', drawn'⟩)) := by
  induction he with
  | start => exact ⟨opened, drawn, h⟩
  | step _ ih =>
    obtain ⟨_, _, ih⟩ := ih
    have hstep := ih.step (.turn i _ (set_sessions_self ..))
    rw [set_set] at hstep
    exact ⟨_, _, hstep⟩
  | disturbed d _ ih =>
    obtain ⟨_, _, ih⟩ := ih
    exact ⟨_, _, ih.step (.disturb d)⟩

/-- The stores left by commands given one after the other, each with any
disturbances, and each until it has its result. -/
inductive History (service : Service) : Store → Prop
  | new : History service .empty
  | command {s s' : Store} {client : Client} {now : Nat} {c : Command} {js : List Mutation}
      {r : Except Failure c.Reply} (h : History service s)
      (he : Run.Execution client s (.outside (service.operation now c)) js s' (.outside (.done r))) :
      History service s'

/-- **Commands one after the other are a special case of commands side by
side.** -/
theorem History.reachable {s : Store} (h : History service s) :
    Reachable service (initial.set s 0 none) := by
  induction h with
  | new =>
    have hsame : initial.set .empty 0 none = initial := by simp [set, initial]
    rw [hsame]
    exact .initial
  | @command s s' client now c js r h he ih =>
    have hstart := ih.step (.start 0 client now c (set_sessions_self ..))
    rw [set_set] at hstart
    obtain ⟨_, _, hend⟩ := Reachable.execution he hstart
    have hleave := hend.step (.leave 0 _ (set_sessions_self ..))
    rw [set_set] at hleave
    exact hleave

/-! ## Schedules -/

/-- The system after a command was given, where there is room for it. -/
def given (sys : System) (service : Service) (i : Nat) (client : Client) (c : Command) : System :=
  match sys.sessions i with
  | none => sys.set sys.store i (some (.start service client 0 c))
  | some _ => sys

/-- The system after a session has taken a step, if there is one. -/
def turn (sys : System) (i : Nat) : System :=
  match sys.sessions i with
  | none => sys
  | some x => sys.set (x.run.step x.client sys.store).1 i
      (some (x.moved sys.store (x.run.step x.client sys.store).1 (x.run.step x.client sys.store).2))

theorem turn_eq {i : Nat} {x : Session} (hx : sys.sessions i = some x) :
    sys.turn i = sys.set (x.run.step x.client sys.store).1 i
      (some (x.moved sys.store (x.run.step x.client sys.store).1
        (x.run.step x.client sys.store).2)) := by
  unfold turn
  rw [hx]

theorem Step.of_turn {i : Nat} {x : Session} (hx : sys.sessions i = some x) :
    Step service sys (sys.turn i) :=
  turn_eq hx ▸ .turn i x hx

/-- The system after sessions have taken steps in the given order. -/
def turns (sys : System) (schedule : List Nat) : System := schedule.foldl turn sys

theorem Reachable.given (h : Reachable service sys) (i : Nat) (client : Client) (c : Command) :
    Reachable service (sys.given service i client c) := by
  unfold System.given
  split
  · next hi => exact h.step (.start i client 0 c hi)
  · exact h

theorem Reachable.turns (h : Reachable service sys) (schedule : List Nat) :
    Reachable service (sys.turns schedule) := by
  induction schedule generalizing sys with
  | nil => exact h
  | cons i schedule ih =>
    refine ih ?_
    cases hx : sys.sessions i with
    | none =>
      unfold turn
      rwa [hx]
    | some x => exact h.step (.of_turn hx)

end System

/-! ## A small ledger -/

namespace Sample

/-- A service that gives out no tokens. -/
def service : Service := ⟨⟨"", 0, 0⟩, 4⟩

/-- A client that stays. -/
def client : Client := ⟨none, false⟩

/-- An account is opened. -/
def register (name : String) : Command := .register ⟨name, name ++ "@example.org", "secret"⟩

/-- An amount of so many cents. -/
def cents (n : Nat) (h : n < Nat.pow 2 96) : Decimal :=
  { Money.oneCent with mantissa := n, mantissa_lt := h }

/-- Half of an expense. -/
def half (owedBy : Int) (amount : Decimal) : ShareDraft :=
  ⟨some owedBy, ⟨false, 5, 1, by decide, by decide⟩, amount⟩

/-- A dinner for thirty that the member 4 paid and shares with the member 5. -/
def dinner : ExpenseDraft where
  name := "Dinner"
  date := ⟨2024, 5, 1, by decide, by decide⟩
  amount := cents 3000 (by decide)
  category := none
  note := none
  paidBy := 4
  shares := some [half 4 (cents 1500 (by decide)),
    half 5 { Decimal.one with mantissa := 15, mantissa_lt := by decide }]

/-- Two accounts, a group of both and a dinner they share. -/
def trip : System :=
  let system := System.initial.given service 0 client (register "ada")
  let system := (system.turns (.replicate 5 0)).given service 1 client (register "bea")
  let system := (system.turns (.replicate 5 1)).given service 2 client
    (.createGroup 1 ⟨"Trip", some "Ada"⟩)
  let system := (system.turns (.replicate 6 2)).given service 3 client
    (.act 1 (.addMember 3 ⟨"Bea", some 2⟩))
  let system := (system.turns (.replicate 12 3)).given service 4 client
    (.act 1 (.createExpense 3 dinner))
  system.turns (.replicate 20 4)

theorem reachable_trip : System.Reachable service trip :=
  System.Reachable.initial |>.given 0 _ _ |>.turns _ |>.given 1 _ _ |>.turns _ |>.given 2 _ _
    |>.turns _ |>.given 3 _ _ |>.turns _ |>.given 4 _ _ |>.turns _

end Sample

end SharedLedger
