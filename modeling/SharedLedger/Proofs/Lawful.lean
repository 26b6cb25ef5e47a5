import SharedLedger.Proofs.Alone
import SharedLedger.Proofs.Kept

/-!
# Plans that may be committed late

A plan is carried out on tables that may be out of date by the time its
journal is replayed. `Plan.Lawful` says that this does no harm: if the rows
the plan locked are still what they were, the replay changes the tables in
elementary steps covered by the locks, and it changes them exactly as the
plan would have if it had been run alone on the tables of that moment.
-/

namespace SharedLedger

/-- Ids in ascending order that are not in use. -/
structure Fresh (ids : Stream' Int) (t : Tables) : Prop where
  ascending : ∀ m n, m < n → ids.get m < ids.get n
  unused : ∀ n table, t.contains table (ids.get n) = false

/-- An id of the supply. -/
def Supplied (ids : Stream' Int) (id : Int) : Prop := ∃ n, ids.get n = id

namespace Fresh

open Tables

variable {ids : Stream' Int} {t t' : Tables}

theorem tail (h : Fresh ids t) : Fresh ids.tail t where
  ascending m n hmn := h.ascending (m + 1) (n + 1) (by omega)
  unused n := h.unused (n + 1)

/-- Ids that are not in use stay so where nothing but the first of them was
taken into use. -/
theorem tail_of_contains (h : Fresh ids t)
    (hc : ∀ table id, t'.contains table id = true → t.contains table id = true ∨ id = ids.head) :
    Fresh ids.tail t' where
  ascending := h.tail.ascending
  unused n table := by
    -- an id in use would be the first of the supply, and those behind it are larger
    by_contra hin
    rcases hc table _ (by simpa using hin) with hin | hid
    · rw [h.unused (n + 1) table] at hin
      cases hin
    · have hlt := h.ascending 0 (n + 1) (by omega)
      have hhead : ids.get (n + 1) = ids.get 0 := hid
      omega

/-- The supply after a change that takes its first id into use. -/
theorem tail_of_change {held : RowKey → Prop} (h : Fresh ids t)
    (hc : Change (· = ids.head) held t t') : Fresh ids.tail t' :=
  h.tail_of_contains fun _ _ hin => (hc.evolves.contains hin).symm

/-- The supply after a change that takes none of its ids into use. -/
theorem of_change {held : RowKey → Prop} (h : Fresh ids t)
    (hc : Change (fun _ => False) held t t') : Fresh ids t' where
  ascending := h.ascending
  unused n table := by
    by_contra hin
    have hin' := (hc.evolves.contains (by simpa using hin)).resolve_left id
    rw [h.unused n table] at hin'
    cases hin'

theorem head_unused (h : Fresh ids t) (table : Table) : t.contains table ids.head = false :=
  h.unused 0 table

end Fresh

theorem supplied_head (ids : Stream' Int) : Supplied ids ids.head := ⟨0, rfl⟩

theorem Supplied.of_tail {ids : Stream' Int} {id : Int} (h : Supplied ids.tail id) :
    Supplied ids id := by
  obtain ⟨n, hn⟩ := h
  exact ⟨n + 1, hn⟩

namespace Plan

open Tables

variable {α β : Type}

/-- On the tables `t` the plan does what it has done elsewhere, or it fails
there and nothing was to be done. -/
def Repeats (p : Plan α) (ids : Stream' Int) (o : Outcome α) (t t' : Tables) : Prop :=
  (∃ o', p.alone t ids = .ok o' ∧ o'.locked = o.locked ∧ o'.tables = t') ∨
  ((∀ o', p.alone t ids ≠ .ok o') ∧ t' = t)

/-- **A plan that may be committed late.** It was carried out on the tables
`V`, and its journal is replayed on `T`, on which its locks still stand for
what they did: this changes `T` under the locks, and, where `exact` holds,
just as the plan does on `T` itself. -/
structure Lawful (exact : Prop) (p : Plan α) : Prop where
  commit : ∀ {V T T' : Tables} {ids : Stream' Int} {o : Outcome α}, Base o.locked V T →
    T.Consistent → Fresh ids V → Fresh ids T → p.alone V ids = .ok o →
    T.replay o.journal = .ok T' →
    Changes (Supplied ids) (· ∈ o.locked) T T' ∧ (exact → p.tablesAfter T ids = T')

/-- A plan may be committed late if, alone, it changes the tables under its
locks, and does the same on newer tables. -/
theorem lawful_of_repeats {p : Plan α}
    (hchanges : ∀ {T ids o}, T.Consistent → Fresh ids T → p.alone T ids = .ok o →
      Changes (Supplied ids) (· ∈ o.locked) T o.tables)
    (hrepeats : ∀ {V T T' ids o}, Base o.locked V T → T.Consistent → Fresh ids V → Fresh ids T →
      p.alone V ids = .ok o → T.replay o.journal = .ok T' → p.Repeats ids o T T') :
    p.Lawful True := by
  refine ⟨fun {V T T' ids o} hb hT hV hf ho hr => ?_⟩
  rcases hrepeats hb hT hV hf ho hr with ⟨o', ho', hlocked, rfl⟩ | ⟨hfails, rfl⟩
  · refine ⟨?_, fun _ => tablesAfter_of_ok ho'⟩
    rw [← hlocked]
    exact hchanges hT hf ho'
  · refine ⟨.refl, fun _ => ?_⟩
    unfold tablesAfter
    split
    · next o' ho' => exact absurd ho' (hfails o')
    · rfl

/-- The same journal has the same effect. -/
theorem repeats_of_journal {p : Plan α} {ids : Stream' Int} {o o' : Outcome α} {t t' : Tables}
    (h : p.alone t ids = .ok o') (hl : o'.locked = o.locked) (hj : o'.journal = o.journal)
    (hr : t.replay o.journal = .ok t') : p.Repeats ids o t t' := by
  have ht := replay_journal h
  rw [hj, hr] at ht
  exact .inl ⟨o', h, hl, (Except.ok.inj ht).symm⟩

/-! ## Single calls -/

variable {t : Tables} {ids : Stream' Int}

theorem alone_ask {c : Call} {o : Outcome c.Reply} :
    (ask c).alone t ids = .ok o ↔
      ∃ ms r t', c.effect t ids.head = .ok (ms, r) ∧ t.replay ms = .ok t' ∧
        o = ⟨r, [], ms, t', c.idsAfter ids⟩ := by
  rw [ask, alone_call]
  constructor
  · rintro ⟨ms, r, t', o', he, ht, ho, rfl⟩
    rw [alone_done.1 ho]
    exact ⟨ms, r, t', he, ht, by simp [Outcome.after]⟩
  · rintro ⟨ms, r, t', he, ht, rfl⟩
    exact ⟨ms, r, t', _, he, ht, alone_done.2 rfl, by simp [Outcome.after]⟩

/-- A call that writes one mutation. -/
theorem alone_ask_single {c : Call} {m : Mutation} {r : c.Reply} {o : Outcome c.Reply}
    (he : c.effect t ids.head = .ok ([m], r)) :
    (ask c).alone t ids = .ok o ↔
      t.check m = .ok () ∧ o = ⟨r, [], [m], t.enact m, c.idsAfter ids⟩ := by
  rw [alone_ask, he]
  constructor
  · rintro ⟨ms, r', t', hr, ht, rfl⟩
    cases hr
    obtain ⟨hc, rfl⟩ := replay_singleton.1 ht
    exact ⟨hc, rfl⟩
  · rintro ⟨hc, rfl⟩
    exact ⟨_, _, _, rfl, replay_singleton.2 ⟨hc, rfl⟩, rfl⟩

/-- A call that writes, and what comes after it. -/
theorem alone_write {c : Call} {ms : List Mutation} {r : c.Reply} {f : c.Reply → Plan α}
    {o : Outcome α} (he : c.effect t ids.head = .ok (ms, r)) :
    ((ask c).bind f).alone t ids = .ok o ↔
      ∃ t' o', t.replay ms = .ok t' ∧ (f r).alone t' (c.idsAfter ids) = .ok o' ∧
        o = o'.after [] ms :=
  alone_change he

/-! ## Several rows -/

/-- What comes after a plan that writes `js` and answers `b`. -/
theorem alone_writes_bind {p : Plan β} {js : List Mutation} {b : β} {ids' : Stream' Int}
    (hp : ∀ o, p.alone t ids = .ok o ↔ ∃ t', t.replay js = .ok t' ∧ o = ⟨b, [], js, t', ids'⟩)
    {f : β → Plan α} {o : Outcome α} :
    (p.bind f).alone t ids = .ok o ↔
      ∃ t' o', t.replay js = .ok t' ∧ (f b).alone t' ids' = .ok o' ∧ o = o'.after [] js := by
  rw [alone_bind]
  constructor
  · rintro ⟨o₁, o₂, h₁, h₂, rfl⟩
    obtain ⟨t', ht', rfl⟩ := (hp o₁).1 h₁
    exact ⟨t', o₂, ht', h₂, rfl⟩
  · rintro ⟨t', o', ht', h, rfl⟩
    exact ⟨_, o', (hp _).2 ⟨t', ht', rfl⟩, h, rfl⟩

/-- A plan that puts rows in one after the other, each under the next fresh
id. -/
theorem alone_rows {δ ρ : Type} (p : List δ → Plan (List ρ)) (row : Int → δ → ρ)
    (rows : Stream' Int → List δ → List ρ) (write : ρ → Mutation)
    (hnil : p [] = .done []) (hrows : ∀ ids, rows ids [] = [])
    (hcons : ∀ d ds t ids o, (p (d :: ds)).alone t ids = .ok o ↔
      ∃ t₁ o₁, t.replay [write (row ids.head d)] = .ok t₁ ∧
        ((p ds).bind fun rs => .done (row ids.head d :: rs)).alone t₁ ids.tail = .ok o₁ ∧
        o = o₁.after [] [write (row ids.head d)])
    (hrow : ∀ ids d ds, rows ids (d :: ds) = row ids.head d :: rows ids.tail ds)
    {ds : List δ} {o : Outcome (List ρ)} :
    (p ds).alone t ids = .ok o ↔
      ∃ t', t.replay ((rows ids ds).map write) = .ok t' ∧
        o = ⟨rows ids ds, [], (rows ids ds).map write, t', ids.drop ds.length⟩ := by
  -- row by row: the first takes the head of the supply, the others what it leaves
  induction ds generalizing t ids o with
  | nil =>
    rw [hnil, hrows, alone_done]
    constructor
    · rintro rfl
      exact ⟨t, rfl, rfl⟩
    · rintro ⟨t', ht, rfl⟩
      cases ht
      rfl
  | cons d ds ih =>
    rw [hcons, hrow]
    constructor
    · rintro ⟨t₁, o₁, h₁, ho₁, rfl⟩
      obtain ⟨t', o₂, h', ho₂, rfl⟩ := (alone_writes_bind fun _ => ih).1 ho₁
      rw [alone_done.1 ho₂]
      exact ⟨t', replay_append.2 ⟨t₁, h₁, h'⟩, by simp [Outcome.after]⟩
    · rintro ⟨t', ht', rfl⟩
      obtain ⟨t₁, h₁, h'⟩ := (@replay_append t t' [_] _).1 ht'
      exact ⟨t₁, _, h₁, (alone_writes_bind fun _ => ih).2 ⟨t', _, h', alone_done.2 rfl, rfl⟩,
        by simp [Outcome.after]⟩

/-! ## Rows under the ids of a supply -/

section Rows

variable {δ ρ : Type} (row : Int → δ → ρ) {rows : Stream' Int → List δ → List ρ} {ds : List δ}
  {key : ρ → Int} (hnil : ∀ ids, rows ids [] = [])
  (hcons : ∀ ids d ds, rows ids (d :: ds) = row ids.head d :: rows ids.tail ds)

include hnil hcons

theorem mem_rows {r : ρ} (h : r ∈ rows ids ds) : ∃ d ∈ ds, ∃ n, r = row (ids.get n) d := by
  induction ds generalizing ids with
  | nil =>
    rw [hnil] at h
    cases h
  | cons d ds ih =>
    rw [hcons] at h
    rcases List.mem_cons.1 h with rfl | h
    · exact ⟨d, List.mem_cons_self .., 0, rfl⟩
    · obtain ⟨d', hd', n, rfl⟩ := ih h
      exact ⟨d', List.mem_cons_of_mem _ hd', n + 1, rfl⟩

theorem ascending_rows (hkey : ∀ id d, key (row id d) = id)
    (h : ∀ m n, m < n → ids.get m < ids.get n) :
    (rows ids ds).Pairwise fun a b => key a < key b := by
  induction ds generalizing ids with
  | nil =>
    rw [hnil]
    exact .nil
  | cons d ds ih =>
    rw [hcons]
    refine List.pairwise_cons.2 ⟨fun r hr => ?_, ih fun m n hmn => h (m + 1) (n + 1) (by omega)⟩
    obtain ⟨d', -, n, rfl⟩ := mem_rows row hnil hcons hr
    rw [hkey, hkey]
    exact h 0 (n + 1) (by omega)

/-- What does not depend on the ids can be read off what was proposed. -/
theorem map_rows {γ : Type} {f : ρ → γ} {g : δ → γ} (h : ∀ d id, f (row id d) = g d) :
    (rows ids ds).map f = ds.map g := by
  induction ds generalizing ids with
  | nil =>
    rw [hnil]
    rfl
  | cons d ds ih => rw [hcons, List.map_cons, List.map_cons, h, ih]

end Rows

/-! ## Rows that are locked or have to exist -/

/-- What a call answers where a row has to exist. -/
theorem require_bind_eq_ok {γ : Type} {table : Table} {id : Int} {x y : γ} :
    (do t.require table id; return x : Except LedgerError γ) = .ok y ↔
      t.contains table id = true ∧ x = y := by
  unfold require
  split
  · next h => exact ⟨fun he => ⟨h, Except.ok.inj he⟩, fun he => congrArg Except.ok he.2⟩
  · next h => exact ⟨fun he => (by cases he), fun he => absurd he.1 h⟩

/-- A call that writes where a row has to exist. -/
theorem alone_ask_required {c : Call} {table : Table} {id : Int} {ms : List Mutation}
    {r : c.Reply} {o : Outcome c.Reply}
    (he : c.effect t ids.head = do t.require table id; return (ms, r)) :
    (ask c).alone t ids = .ok o ↔
      t.contains table id = true ∧
        ∃ t', t.replay ms = .ok t' ∧ o = ⟨r, [], ms, t', c.idsAfter ids⟩ := by
  rw [alone_ask, he]
  simp only [require_bind_eq_ok]
  constructor
  · rintro ⟨ms', r', t', ⟨hin, hr⟩, ht, rfl⟩
    cases hr
    exact ⟨hin, t', ht, rfl⟩
  · rintro ⟨hin, t', ht, rfl⟩
    exact ⟨ms, r, t', ⟨hin, rfl⟩, ht, rfl⟩

/-- Locking a row and going on. -/
theorem alone_hold {table : Table} {id : Int} {f : Unit → Plan α} {o : Outcome α} :
    ((hold table id).bind f).alone t ids = .ok o ↔
      t.contains table id = true ∧
        ∃ o', (f ()).alone t ids = .ok o' ∧ o = o'.after [⟨table, id⟩] [] :=
  alone_lock

end Plan

end SharedLedger
