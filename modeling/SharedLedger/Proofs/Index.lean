import SharedLedger.Index
import Mathlib.Data.List.Basic

/-!
# What is found in an index

An index is determined by its items, whatever way it was built
(`ext_mem`), and so by what is found in it under each key (`ext_find?`).
Every operation is read off `find?`: an item put in is found under its key,
one taken out is not, and all others stay what they were.
-/

namespace SharedLedger

namespace Index

variable {α κ : Type} [KeyOrder κ] {key : α → κ}

/-- Nothing occurs twice in a list in ascending order. -/
theorem nodup_of_ascending {l : List α}
    (hl : l.Pairwise fun a b => KeyOrder.before (key a) (key b) = true) : l.Nodup := by
  refine hl.imp fun {a b} hab he => ?_
  rw [he, KeyOrder.irrefl] at hab
  cases hab

/-- Lists in ascending order with the same items are equal. -/
theorem eq_of_ascending {l l' : List α}
    (hl : l.Pairwise fun a b => KeyOrder.before (key a) (key b) = true)
    (hl' : l'.Pairwise fun a b => KeyOrder.before (key a) (key b) = true)
    (h : ∀ a, a ∈ l ↔ a ∈ l') : l = l' := by
  have hperm : l.Perm l' :=
    (List.perm_ext_iff_of_nodup (nodup_of_ascending hl) (nodup_of_ascending hl')).2 h
  refine hperm.eq_of_pairwise (fun a b _ _ hab hba => ?_) hl hl'
  have hself := KeyOrder.trans hab hba
  rw [KeyOrder.irrefl] at hself
  cases hself

theorem nodup (m : Index key) : m.toList.Nodup := nodup_of_ascending m.ascending

/-- Every key occurs once. -/
theorem nodup_keys (m : Index key) : (m.toList.map key).Nodup := by
  have hasc : (m.toList.map key).Pairwise fun j k => KeyOrder.before (id j) (id k) = true :=
    List.pairwise_map.2 m.ascending
  exact nodup_of_ascending hasc

/-- Items that occur once have different keys. -/
theorem nodup_keys_of_nodup (m : Index key) {l : List α} (hl : l.Nodup)
    (h : ∀ a ∈ l, a ∈ m.toList) : (l.map key).Nodup :=
  List.pairwise_map.2 <| hl.imp_of_mem fun {a b} ha hb hne hkey =>
    hne (m.eq_of_key_eq (h a ha) (h b hb) hkey)

/-- **An index is the set of its items.** -/
theorem ext_mem {m m' : Index key} (h : ∀ a, a ∈ m.toList ↔ a ∈ m'.toList) : m = m' :=
  ext (eq_of_ascending m.ascending m'.ascending h)

/-- Indexes with the same items that pass a test list them alike. -/
theorem toList_filter_congr {m m' : Index key} {p : α → Bool}
    (h : ∀ a, p a = true → (a ∈ m'.toList ↔ a ∈ m.toList)) :
    m'.toList.filter p = m.toList.filter p :=
  eq_of_ascending (m'.ascending.filter p) (m.ascending.filter p) fun a => by
    rw [List.mem_filter, List.mem_filter]
    exact and_congr_left (h a)

/-- The items that pass a test, where they are known and in order. -/
theorem filter_eq_of_ascending {m : Index key} {p : α → Bool} {l : List α}
    (hl : l.Pairwise fun a b => KeyOrder.before (key a) (key b) = true)
    (h : ∀ a, (a ∈ m.toList ∧ p a = true) ↔ a ∈ l) : m.toList.filter p = l :=
  eq_of_ascending (m.ascending.filter p) hl fun a => by rw [List.mem_filter]; exact h a

@[simp] theorem mem_filter (m : Index key) (p : α → Bool) (a : α) :
    a ∈ (m.filter p).toList ↔ a ∈ m.toList ∧ p a = true := by
  rw [toList_filter, List.mem_filter]

@[simp] theorem mem_map (m : Index key) (f : α → α) (h : ∀ a, key (f a) = key a) (b : α) :
    b ∈ (m.map f h).toList ↔ ∃ a ∈ m.toList, f a = b := by
  rw [toList_map, List.mem_map]

/-- An item is among those that pass a test if one of its key is. -/
theorem any_key_filter [BEq κ] [LawfulBEq κ] (m : Index key) (p : α → Bool) {a : α}
    (ha : a ∈ m.toList) :
    ((m.toList.filter p).any fun b => key b == key a) = p a := by
  rw [Bool.eq_iff_iff, List.any_eq_true]
  constructor
  · rintro ⟨b, hb, hkey⟩
    obtain ⟨hb, hp⟩ := List.mem_filter.1 hb
    rw [← m.eq_of_key_eq hb ha (beq_iff_eq.1 hkey)]
    exact hp
  · intro hp
    exact ⟨a, List.mem_filter.2 ⟨ha, hp⟩, beq_self_eq_true _⟩

/-- An item that is put in is one more at most. -/
theorem length_put_le (m : Index key) (a : α) :
    (m.put a).toList.length ≤ m.toList.length + 1 := by
  have run : ∀ l : List α, (insertInto key a l).length ≤ l.length + 1 := by
    intro l
    induction l with
    | nil => simp [insertInto]
    | cons b l ih =>
      unfold insertInto
      split
      · simp
      · split <;> simp only [List.length_cons] <;> omega
  exact run m.toList

section Find

variable [DecidableEq κ] {m m' : Index key} {k : κ} {a b : α}

theorem find?_of_mem (h : a ∈ m.toList) : m.find? (key a) = some a :=
  m.find?_eq_some_iff.2 ⟨h, rfl⟩

theorem mem_of_find? (h : m.find? k = some a) : a ∈ m.toList := (m.find?_eq_some_iff.1 h).1

theorem key_of_find? (h : m.find? k = some a) : key a = k := (m.find?_eq_some_iff.1 h).2

/-- What is the same item in one index as in another is found the same way. -/
theorem find?_eq_of_mem_iff (h : ∀ a, key a = k → (a ∈ m.toList ↔ a ∈ m'.toList)) :
    m.find? k = m'.find? k := by
  refine Option.ext fun a => ?_
  rw [find?_eq_some_iff, find?_eq_some_iff]
  constructor
  · rintro ⟨ha, hk⟩
    exact ⟨(h a hk).1 ha, hk⟩
  · rintro ⟨ha, hk⟩
    exact ⟨(h a hk).2 ha, hk⟩

/-- **An index is what is found in it.** -/
theorem ext_find? (h : ∀ k, m.find? k = m'.find? k) : m = m' :=
  ext_mem fun a =>
    ⟨fun ha => mem_of_find? (h (key a) ▸ find?_of_mem ha),
      fun ha => mem_of_find? ((h (key a)).symm ▸ find?_of_mem ha)⟩

@[simp] theorem find?_empty : (empty : Index key).find? k = none := rfl

theorem find?_put (m : Index key) (a : α) (k : κ) :
    (m.put a).find? k = if key a = k then some a else m.find? k := by
  split
  · next h => exact find?_eq_some_iff _ |>.2 ⟨(mem_put m a a).2 (.inl rfl), h⟩
  · next h =>
    refine find?_eq_of_mem_iff fun b hb => ?_
    rw [mem_put]
    constructor
    · rintro (rfl | ⟨hm, -⟩)
      · exact absurd hb h
      · exact hm
    · intro hm
      exact .inr ⟨hm, fun he => h (he.symm.trans hb)⟩

@[simp] theorem find?_put_self (m : Index key) (a : α) : (m.put a).find? (key a) = some a := by
  rw [find?_put, if_pos rfl]

theorem find?_filter (m : Index key) (p : α → Bool) (k : κ) :
    (m.filter p).find? k = (m.find? k).filter p := by
  refine Option.ext fun a => ?_
  rw [find?_eq_some_iff, mem_filter, Option.filter_eq_some_iff, find?_eq_some_iff]
  tauto

theorem find?_erase (m : Index key) (k' k : κ) :
    (m.erase k').find? k = if k' = k then none else m.find? k := by
  split
  · next h =>
    rw [find?_eq_none_iff]
    intro a ha
    exact fun hk => ((mem_erase m k' a).1 ha).2 (hk.trans h.symm)
  · next h =>
    refine find?_eq_of_mem_iff fun a ha => ?_
    rw [mem_erase]
    exact ⟨And.left, fun hm => ⟨hm, fun he => h (he.symm.trans ha)⟩⟩

theorem find?_map (m : Index key) (f : α → α) (h : ∀ a, key (f a) = key a) (k : κ) :
    (m.map f h).find? k = (m.find? k).map f := by
  refine Option.ext fun b => ?_
  rw [find?_eq_some_iff, mem_map, Option.map_eq_some_iff]
  constructor
  · rintro ⟨⟨a, ha, rfl⟩, hk⟩
    exact ⟨a, (find?_eq_some_iff m).2 ⟨ha, (h a).symm.trans hk⟩, rfl⟩
  · rintro ⟨a, ha, rfl⟩
    exact ⟨⟨a, mem_of_find? ha, rfl⟩, (h a).trans (key_of_find? ha)⟩

/-- An item that is put in the place of another is the other one changed. -/
theorem put_eq_map (h : m.find? (key a) = some b) :
    m.put a = m.map (fun c => if key c = key a then a else c) (fun c => by split <;> simp_all) := by
  refine ext_find? fun k => ?_
  rw [find?_put, find?_map]
  split
  · next hk => rw [← hk, h, Option.map_some, if_pos (key_of_find? h)]
  · next hk =>
    cases hc : m.find? k with
    | none => rfl
    | some c => rw [Option.map_some, if_neg fun he => hk (he.symm.trans (key_of_find? hc))]

/-- Of the items with keys that pass a test, those put in are put in. -/
theorem filter_put (m : Index key) (p : κ → Bool) (a : α) :
    (m.put a).filter (fun b => p (key b)) =
      if p (key a) then (m.filter fun b => p (key b)).put a else m.filter fun b => p (key b) := by
  refine ext_find? fun k => ?_
  by_cases hk : key a = k
  · subst hk
    by_cases hp : p (key a) = true
    · simp [hp, find?_filter]
    · have hnone : (m.find? (key a)).filter (fun b => p (key b)) = none := by
        refine Option.filter_eq_none_iff.2 fun b hb => ?_
        rw [key_of_find? hb]
        exact hp
      simp [hp, find?_filter, hnone]
  · by_cases hp : p (key a) = true <;> simp [hp, hk, find?_filter, find?_put]

theorem contains_eq_true_iff : m.contains k = true ↔ ∃ a, m.find? k = some a := by
  rw [contains, Option.isSome_iff_exists]

theorem contains_eq_false_iff : m.contains k = false ↔ m.find? k = none := by
  rw [contains, Option.isSome_eq_false_iff, Option.isNone_iff_eq_none]

theorem contains_congr {m m' : Index key} (h : m'.find? k = m.find? k) :
    m'.contains k = m.contains k := by
  rw [contains, contains, h]

theorem contains_of_mem (h : a ∈ m.toList) : m.contains (key a) = true :=
  contains_eq_true_iff.2 ⟨a, find?_of_mem h⟩

/-- Where there is no item under a key, none of the items has that key. -/
theorem ne_of_contains_eq_false (h : m.contains k = false) (ha : a ∈ m.toList) : key a ≠ k :=
  m.find?_eq_none_iff.1 (contains_eq_false_iff.1 h) a ha

/-- Putting an item in under a new key leaves all items where they are. -/
theorem mem_put_of_new (h : m.contains (key a) = false) (b : α) :
    b ∈ (m.put a).toList ↔ b = a ∨ b ∈ m.toList := by
  rw [mem_put]
  constructor
  · rintro (rfl | ⟨hb, -⟩)
    · exact .inl rfl
    · exact .inr hb
  · rintro (rfl | hb)
    · exact .inl rfl
    · exact .inr ⟨hb, ne_of_contains_eq_false h hb⟩

end Find

/-! ## Items under new keys -/

section New

variable {α : Type} {key : α → Int} {m : Index key} {l : List α} {p : α → Bool} {a : α}

/-- Items that are put in under new keys, in ascending order, all stay. -/
theorem mem_foldl_put (hnew : ∀ b ∈ l, m.contains (key b) = false)
    (hasc : l.Pairwise fun a b => key a < key b) (a : α) :
    a ∈ (l.foldl put m).toList ↔ a ∈ l ∨ a ∈ m.toList := by
  induction l generalizing m with
  | nil => simp
  | cons r l ih =>
    obtain ⟨hr, hl⟩ := List.pairwise_cons.1 hasc
    have hput := mem_put_of_new (hnew r (List.mem_cons_self ..))
    rw [List.foldl_cons, ih _ hl, hput, List.mem_cons]
    · tauto
    · intro b hb
      rw [contains_eq_false_iff, find?_put, if_neg (Int.ne_of_lt (hr b hb))]
      exact contains_eq_false_iff.1 (hnew b (List.mem_cons_of_mem _ hb))

/-- New items in place of those that pass a test. -/
def replaceWith (m : Index key) (p : α → Bool) (l : List α) : Index key :=
  l.foldl put (m.filter fun a => !p a)

theorem mem_replaceWith (hnew : ∀ b ∈ l, m.contains (key b) = false)
    (hasc : l.Pairwise fun a b => key a < key b) (a : α) :
    a ∈ (m.replaceWith p l).toList ↔ a ∈ l ∨ (a ∈ m.toList ∧ p a = false) := by
  have hnew' : ∀ b ∈ l, (m.filter fun a => !p a).contains (key b) = false := by
    intro b hb
    rw [contains_eq_false_iff, find?_filter, contains_eq_false_iff.1 (hnew b hb)]
    rfl
  rw [replaceWith, mem_foldl_put hnew' hasc, mem_filter, Bool.not_eq_true']

/-- Those that pass the test are the new ones then, in their order. -/
theorem filter_replaceWith (hnew : ∀ b ∈ l, m.contains (key b) = false)
    (hasc : l.Pairwise fun a b => key a < key b) (hp : ∀ b ∈ l, p b = true) :
    (m.replaceWith p l).toList.filter p = l := by
  refine filter_eq_of_ascending (hasc.imp fun hab => decide_eq_true hab) fun a => ?_
  rw [mem_replaceWith hnew hasc]
  constructor
  · rintro ⟨ha | ⟨-, hno⟩, hyes⟩
    · exact ha
    · cases hno.symm.trans hyes
  · exact fun ha => ⟨.inl ha, hp a ha⟩

/-- Those that passed it are gone. -/
theorem contains_replaceWith_eq_false (hnew : ∀ b ∈ l, m.contains (key b) = false)
    (hasc : l.Pairwise fun a b => key a < key b) (ha : a ∈ m.toList) (hp : p a = true) :
    (m.replaceWith p l).contains (key a) = false := by
  by_contra hin
  obtain ⟨b, hb⟩ := contains_eq_true_iff.1 (eq_true_of_ne_false hin)
  have hkey : key b = key a := key_of_find? hb
  rcases (mem_replaceWith hnew hasc b).1 (mem_of_find? hb) with hl | ⟨hm, hno⟩
  · have hunused := hnew b hl
    rw [hkey, contains_of_mem ha] at hunused
    cases hunused
  · rw [m.eq_of_key_eq hm ha hkey, hp] at hno
    cases hno

/-- The first of the items that pass a test is the one with the lowest key. -/
theorem head?_filter_of_le (ha : a ∈ m.toList.filter p)
    (hle : ∀ b ∈ m.toList.filter p, key a ≤ key b) : (m.toList.filter p).head? = some a := by
  have hasc := m.ascending.filter p
  cases hl : m.toList.filter p with
  | nil =>
    rw [hl] at ha
    cases ha
  | cons b l =>
    rw [hl] at ha hle hasc
    rcases List.mem_cons.1 ha with rfl | ha
    · rfl
    · have hlt : key b < key a := of_decide_eq_true ((List.pairwise_cons.1 hasc).1 a ha)
      exact absurd (hle b List.mem_cons_self) (Int.not_le.2 hlt)

end New

end Index

end SharedLedger
