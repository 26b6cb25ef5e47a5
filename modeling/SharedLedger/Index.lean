/-!
# Ordered indexes

An `Index` holds items in strictly ascending order of a key, so at most one
item for each key. Tables are indexes of rows by id, tallies are indexes of
amounts by whom they concern. `toList` is the view, and the order in which
answers list things; two indexes with the same list are equal.
-/

namespace SharedLedger

/-- A strict linear order on keys. -/
class KeyOrder (κ : Type) where
  before : κ → κ → Bool
  irrefl : ∀ a, before a a = false
  trans : ∀ {a b c}, before a b = true → before b c = true → before a c = true
  linear : ∀ {a b}, before a b = false → before b a = false → a = b

instance : KeyOrder Int where
  before a b := decide (a < b)
  irrefl a := by simp
  trans h₁ h₂ := by simp only [decide_eq_true_eq] at *; omega
  linear h₁ h₂ := by simp only [decide_eq_false_iff_not] at *; omega

/-- Pairs in order of their first components, then of their second ones. -/
instance : KeyOrder (Int × Int) where
  before a b := decide (a.1 < b.1) || (decide (a.1 = b.1) && decide (a.2 < b.2))
  irrefl a := by simp
  trans h₁ h₂ := by
    simp only [Bool.or_eq_true, Bool.and_eq_true, decide_eq_true_eq] at *
    omega
  linear {a b} h₁ h₂ := by
    simp only [Bool.or_eq_false_iff, Bool.and_eq_false_iff, decide_eq_false_iff_not] at *
    exact Prod.ext (by omega) (by omega)

/-- Items in strictly ascending order of their keys. -/
structure Index {α κ : Type} [KeyOrder κ] (key : α → κ) where
  toList : List α
  ascending : toList.Pairwise fun a b => KeyOrder.before (key a) (key b) = true

namespace Index

variable {α κ : Type} [KeyOrder κ] {key : α → κ}

@[ext] theorem ext {m m' : Index key} (h : m.toList = m'.toList) : m = m' := by
  cases m; cases m'; simp_all

/-- No items. -/
def empty : Index key := ⟨[], .nil⟩

instance : Inhabited (Index key) := ⟨empty⟩

instance [DecidableEq α] : DecidableEq (Index key) := fun m m' =>
  decidable_of_iff (m.toList = m'.toList) ⟨ext, fun h => h ▸ rfl⟩

/-! ## Lists in ascending order -/

/-- Puts an item in its place, instead of the one that has its key. -/
def insertInto (key : α → κ) (a : α) : List α → List α
  | [] => [a]
  | b :: bs =>
    if KeyOrder.before (key a) (key b) then a :: b :: bs
    else if KeyOrder.before (key b) (key a) then b :: insertInto key a bs
    else a :: bs

theorem mem_insertInto {a c : α} {bs : List α} (h : c ∈ insertInto key a bs) : c = a ∨ c ∈ bs := by
  induction bs with
  | nil => simpa [insertInto] using h
  | cons b bs ih =>
    simp only [insertInto] at h
    split at h
    · simpa using h
    · split at h
      · rcases List.mem_cons.1 h with rfl | h
        · simp
        · rcases ih h with rfl | h <;> simp [*]
      · rcases List.mem_cons.1 h with rfl | h <;> simp [*]

theorem pairwise_insertInto (a : α) {bs : List α}
    (h : bs.Pairwise fun a b => KeyOrder.before (key a) (key b) = true) :
    (insertInto key a bs).Pairwise fun a b => KeyOrder.before (key a) (key b) = true := by
  induction bs with
  | nil => simp [insertInto]
  | cons b bs ih =>
    have hb := (List.pairwise_cons.1 h).1
    have hbs := (List.pairwise_cons.1 h).2
    simp only [insertInto]
    split
    · next hab =>
      refine List.pairwise_cons.2 ⟨fun c hc => ?_, h⟩
      rcases List.mem_cons.1 hc with rfl | hc
      · exact hab
      · exact KeyOrder.trans hab (hb c hc)
    · next hab =>
      split
      · next hba =>
        refine List.pairwise_cons.2 ⟨fun c hc => ?_, ih hbs⟩
        rcases mem_insertInto hc with rfl | hc
        · exact hba
        · exact hb c hc
      · next hba =>
        have hk : key a = key b :=
          KeyOrder.linear (Bool.eq_false_iff.2 hab) (Bool.eq_false_iff.2 hba)
        exact List.pairwise_cons.2 ⟨fun c hc => by rw [hk]; exact hb c hc, hbs⟩

/-! ## Operations -/

/-- Puts an item in, instead of the one that has its key. -/
def put (m : Index key) (a : α) : Index key :=
  ⟨insertInto key a m.toList, pairwise_insertInto a m.ascending⟩

/-- The items that pass `p`. -/
def filter (m : Index key) (p : α → Bool) : Index key :=
  ⟨m.toList.filter p, m.ascending.filter p⟩

/-- Changes every item but not its key. -/
def map (m : Index key) (f : α → α) (h : ∀ a, key (f a) = key a) : Index key :=
  ⟨m.toList.map f, List.pairwise_map.2 (m.ascending.imp fun hab => by simpa [h] using hab)⟩

/-- The item with the given key. -/
def find? [DecidableEq κ] (m : Index key) (k : κ) : Option α :=
  m.toList.find? fun a => key a = k

/-- Whether there is an item with the given key. -/
def contains [DecidableEq κ] (m : Index key) (k : κ) : Bool := (m.find? k).isSome

/-- Takes the item with the given key out. -/
def erase [DecidableEq κ] (m : Index key) (k : κ) : Index key :=
  m.filter fun a => key a ≠ k

/-! ## What the view says of them -/

@[simp] theorem toList_empty : (empty : Index key).toList = [] := rfl

@[simp] theorem toList_filter (m : Index key) (p : α → Bool) :
    (m.filter p).toList = m.toList.filter p := rfl

@[simp] theorem toList_map (m : Index key) (f : α → α) (h : ∀ a, key (f a) = key a) :
    (m.map f h).toList = m.toList.map f := rfl

/-- **One item for each key.** -/
theorem eq_of_key_eq (m : Index key) {a b : α} (ha : a ∈ m.toList) (hb : b ∈ m.toList)
    (h : key a = key b) : a = b := by
  have hirrefl : ∀ c : α, KeyOrder.before (key c) (key c) ≠ true := fun c => by
    simp [KeyOrder.irrefl]
  have key_ne : ∀ {x y : α}, KeyOrder.before (key x) (key y) = true → key x ≠ key y :=
    fun {x y} hxy he => hirrefl y (he ▸ hxy)
  have hp := m.ascending
  generalize m.toList = l at ha hb hp
  induction l with
  | nil => simp at ha
  | cons c cs ih =>
    have hc := (List.pairwise_cons.1 hp).1
    rcases List.mem_cons.1 ha with rfl | ha' <;> rcases List.mem_cons.1 hb with rfl | hb'
    · rfl
    · exact absurd h (key_ne (hc b hb'))
    · exact absurd h.symm (key_ne (hc a ha'))
    · exact ih ha' hb' (List.pairwise_cons.1 hp).2

theorem mem_insertInto_iff {a c : α} {bs : List α}
    (h : bs.Pairwise fun a b => KeyOrder.before (key a) (key b) = true) :
    c ∈ insertInto key a bs ↔ c = a ∨ (c ∈ bs ∧ key c ≠ key a) := by
  have key_ne : ∀ {x y : κ}, KeyOrder.before x y = true → x ≠ y := fun {x y} hxy he => by
    subst he; simp [KeyOrder.irrefl] at hxy
  induction bs with
  | nil => simp [insertInto]
  | cons b bs ih =>
    have hb := (List.pairwise_cons.1 h).1
    have hi := ih (List.pairwise_cons.1 h).2
    simp only [insertInto]
    split
    · next hab =>
      have hne : ∀ d ∈ b :: bs, key d ≠ key a := fun d hd => by
        rcases List.mem_cons.1 hd with rfl | hd
        · exact (key_ne hab).symm
        · exact (key_ne (KeyOrder.trans hab (hb d hd))).symm
      exact ⟨fun hc => (List.mem_cons.1 hc).imp id fun hc => ⟨hc, hne c hc⟩,
        fun hc => List.mem_cons.2 (hc.imp id And.left)⟩
    · next hab =>
      split
      · next hba =>
        simp only [List.mem_cons, hi]
        constructor
        · rintro (rfl | rfl | ⟨hc, hne⟩)
          · exact .inr ⟨.inl rfl, key_ne hba⟩
          · exact .inl rfl
          · exact .inr ⟨.inr hc, hne⟩
        · rintro (rfl | ⟨rfl | hc, hne⟩)
          · exact .inr (.inl rfl)
          · exact .inl rfl
          · exact .inr (.inr ⟨hc, hne⟩)
      · next hba =>
        have hk : key a = key b :=
          KeyOrder.linear (Bool.eq_false_iff.2 hab) (Bool.eq_false_iff.2 hba)
        rw [List.mem_cons, List.mem_cons]
        constructor
        · rintro (rfl | hc)
          · exact .inl rfl
          · exact .inr ⟨.inr hc, fun he => key_ne (hb c hc) (he.trans hk).symm⟩
        · rintro (rfl | ⟨rfl | hc, hne⟩)
          · exact .inl rfl
          · exact absurd hk.symm hne
          · exact .inr hc

/-- Putting an item in replaces the one that has its key, and nothing else. -/
@[simp] theorem mem_put (m : Index key) (a c : α) :
    c ∈ (m.put a).toList ↔ c = a ∨ (c ∈ m.toList ∧ key c ≠ key a) :=
  mem_insertInto_iff m.ascending

section Find

variable [DecidableEq κ]

@[simp] theorem mem_erase (m : Index key) (k : κ) (c : α) :
    c ∈ (m.erase k).toList ↔ c ∈ m.toList ∧ key c ≠ k := by
  simp [erase]

/-- **What is found is what is there.** -/
theorem find?_eq_some_iff (m : Index key) {k : κ} {a : α} :
    m.find? k = some a ↔ a ∈ m.toList ∧ key a = k := by
  constructor
  · intro h
    exact ⟨List.mem_of_find?_eq_some h, by simpa using List.find?_some h⟩
  · rintro ⟨ha, rfl⟩
    cases h : m.find? (key a) with
    | none =>
      have := List.find?_eq_none.1 h a ha
      simp at this
    | some b =>
      have hb := List.mem_of_find?_eq_some h
      have hk : key b = key a := by simpa using List.find?_some h
      exact congrArg some (m.eq_of_key_eq hb ha hk)

theorem find?_eq_none_iff (m : Index key) {k : κ} :
    m.find? k = none ↔ ∀ a ∈ m.toList, key a ≠ k := by
  simp [find?, List.find?_eq_none]

theorem contains_iff (m : Index key) {k : κ} :
    m.contains k = true ↔ ∃ a ∈ m.toList, key a = k := by
  simp [contains, find?, List.find?_isSome]

end Find

end Index

end SharedLedger
