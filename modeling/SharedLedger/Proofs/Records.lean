import SharedLedger.Json.Record
import SharedLedger.Proofs.Printed

/-!
# Records are read back

An object that was printed is read into a record member by member. `Fills`
says what that makes of the record without looking at any text: a member sets
the field of its name, and a member nobody asked for is passed over.
`record_printed` is the run of the reader over the text.
-/

namespace SharedLedger

namespace Json

variable {α : Type}

theorem ok_bind {ε β γ : Type} (b : β) (f : β → Except ε γ) :
    (Except.ok b >>= f) = f b := rfl

/-! ## Single values -/

theorem dropSpace_cons {b : UInt8} (h : isSpace b = false) (bs : List UInt8) :
    dropSpace (b :: bs) = b :: bs := by
  rw [dropSpace, List.dropWhile_cons, h]
  rfl

theorem written_str (s : String) (more : List UInt8) :
    written (chars (.str s)) ++ more =
      octet '"' :: (written (s.toList.flatMap escapedChar) ++ octet '"' :: more) := by
  rw [chars, written_quotedChars]

theorem stringValue_printed (s : String) (more : List UInt8) :
    stringValue (written (chars (.str s)) ++ more) = .ok (s, more) := by
  rw [written_str, stringValue, dropSpace_cons (by decide)]
  exact string_printed s more

theorem parsedString_printed {f : String → Option α} {s : String} {a : α} (h : f s = some a)
    (more : List UInt8) : parsedString f (written (chars (.str s)) ++ more) = .ok (a, more) := by
  rw [parsedString, stringValue_printed, ok_bind]
  simp only [h]
  rfl

theorem startsNumber_digitChar : ∀ d < 10, startsNumber (octet (Nat.digitChar d)) = true := by
  decide

theorem integerValue_printed {p : Int → Bool} {n : Nat} (hn : n < 2 ^ 64) (hp : p n = true)
    {more : List UInt8} (hmore : Ends more) :
    integerValue p (written (ofNat n).chars ++ more) = .ok ((n : Int), more) := by
  have hnumber : number (written (ofNat n).chars ++ more) = .ok (.integer n, more) := by
    rw [number, lexeme_printed n hmore, ok_bind]
    simp only [number?_ofInt hn]
    rfl
  obtain ⟨d, bs, hd, hbs⟩ := written_ofNat n
  rw [hbs, List.cons_append] at hnumber ⊢
  rw [integerValue, dropSpace_cons (digit_begins d hd).2]
  simp only [startsNumber_digitChar d hd, hnumber, if_true]
  exact if_pos hp

theorem nat64_printed {n : Nat} (hn : n < 2 ^ 64) {more : List UInt8} (hmore : Ends more) :
    nat64 (written (ofNat n).chars ++ more) = .ok (n, more) := by
  rw [nat64, integerValue_printed hn ?_ hmore]
  · rfl
  · rw [Bool.and_eq_true, decide_eq_true_eq, decide_eq_true_eq, Int.ofNat_lt]
    exact ⟨Int.natCast_nonneg n, hn⟩

theorem skipValue_str (s : String) (more : List UInt8) :
    skipValue (written (chars (.str s)) ++ more) = .ok more := by
  rw [written_str, skipValue, valueUpto, dropSpace_cons (by decide)]
  simp only [Leaves.skipped, skipString_escaped]
  rfl

/-- A digit opens no string, no bracket and no word. -/
theorem digit_opens_nothing : ∀ d < 10, octet (Nat.digitChar d) ≠ octet '"' ∧
    octet (Nat.digitChar d) ≠ octet '[' ∧ octet (Nat.digitChar d) ≠ octet '\x7b' ∧
    octet (Nat.digitChar d) ≠ octet 'n' ∧ octet (Nat.digitChar d) ≠ octet 't' ∧
    octet (Nat.digitChar d) ≠ octet 'f' := by decide

theorem skipValue_ofNat (n : Nat) {more : List UInt8} (hmore : Ends more) :
    skipValue (written (ofNat n).chars ++ more) = .ok more := by
  have hlexeme := lexeme_printed n hmore
  obtain ⟨d, bs, hd, hbs⟩ := written_ofNat n
  rw [hbs, List.cons_append] at hlexeme ⊢
  obtain ⟨hquote, hbracket, hbrace, hn, ht, hf⟩ := digit_opens_nothing d hd
  rw [skipValue, valueUpto, dropSpace_cons (digit_begins d hd).2]
  simp only [if_neg hquote, if_neg hbracket, if_neg hbrace, if_neg hn, if_neg ht, if_neg hf,
    Leaves.skipped, hlexeme]
  rfl

theorem Field.of_read {β : Type} {name : String} {r : Reader β} {set : β → α → α}
    {bs more : List UInt8} {b : β} (h : r bs = .ok (b, more)) :
    (Field.of name r set).read bs = .ok (set b, more) := by
  change (r bs).map _ = _
  rw [h]
  rfl

/-! ## Members -/

/-- What follows a member. -/
def further : List (String × Json) → List Char
  | [] => []
  | m :: ms => ',' :: memberChars (m :: ms)

theorem memberChars_cons (name : String) (v : Json) (ms : List (String × Json)) :
    memberChars ((name, v) :: ms) = quotedChars name ++ ':' :: (chars v ++ further ms) := by
  cases ms with
  | nil => rw [further, List.append_nil]; rfl
  | cons m ms => rw [further, memberChars]; simp only [List.append_assoc, List.cons_append]

theorem ends_further (ms : List (String × Json)) (rest : List UInt8) :
    Ends (written (further ms) ++ octet '\x7d' :: rest) := by
  cases ms with
  | nil => exact .brace rest
  | cons m ms => exact .comma _

variable {fields : List (Field α)}

/-- What the members of an object make of a record, one after the other. The
names of the fields that are set are kept. -/
inductive Fills (fields : List (Field α)) :
    List String → α → List (String × Json) → List String → α → Prop
  /-- All members have been read. -/
  | done (given : List String) (a : α) : Fills fields given a [] given a
  /-- A field that has not been set is set. -/
  | set {given given' : List String} {a a' : α} {name : String} {v : Json}
      {ms : List (String × Json)} {f : Field α} {set : α → α}
      (fresh : given.contains name = false)
      (named : fields.find? (fun f => f.name == name) = some f)
      (read : ∀ more, Ends more → f.read (written v.chars ++ more) = .ok (set, more))
      (rest : Fills fields (name :: given) (set a) ms given' a') :
      Fills fields given a ((name, v) :: ms) given' a'
  /-- A member that is no field is passed over. -/
  | skip {given given' : List String} {a a' : α} {name : String} {v : Json}
      {ms : List (String × Json)}
      (fresh : given.contains name = false)
      (unnamed : fields.find? (fun f => f.name == name) = none)
      (read : ∀ more, Ends more → skipValue (written v.chars ++ more) = .ok more)
      (rest : Fills fields given a ms given' a') :
      Fills fields given a ((name, v) :: ms) given' a'

/-- One pass over a member: where its value begins depends on its name alone. -/
theorem namedFields_member (fuel : Nat) {given : List String} (first : Bool) (a : α)
    {name : String} (hfresh : given.contains name = false) (bs : List UInt8) :
    namedFields fields (fuel + 1) given first a
        ((if first then [] else [octet ',']) ++
          (written (quotedChars name) ++ octet ':' :: bs)) =
      (match fields.find? fun f => f.name == name with
      | none => do namedFields fields fuel given false a (← skipValue bs)
      | some f => do
        let (set, rest) ← f.read bs
        namedFields fields fuel (name :: given) false (set a) rest) := by
  have hcolon : dropSpace (octet ':' :: bs) = octet ':' :: bs := dropSpace_cons (by decide) bs
  have hbrace : octet '"' ≠ octet '\x7d' := by decide
  have hcomma : octet ',' ≠ octet '\x7d' := by decide
  rw [written_quotedChars, namedFields]
  cases first with
  | true =>
    rw [if_pos rfl, List.nil_append, dropSpace_cons (by decide)]
    simp only [if_true, if_neg hbrace, ne_eq, not_true_eq_false, if_false, string_printed, ok_bind,
      hfresh, hcolon, Bool.false_eq_true]
    rfl
  | false =>
    rw [if_neg Bool.false_ne_true, List.singleton_append, dropSpace_cons (by decide)]
    simp only [if_true, if_neg hcomma, dropSpace_cons (show isSpace (octet '"') = false by decide),
      ne_eq, not_true_eq_false, if_false, string_printed, ok_bind, hfresh, hcolon,
      Bool.false_eq_true]
    rfl

/-- What follows a member, or the first member, starts the way a pass over a
member expects it to. -/
theorem written_members (first : Bool) (name : String) (v : Json) (ms : List (String × Json))
    (rest : List UInt8) :
    written (if first then memberChars ((name, v) :: ms) else further ((name, v) :: ms)) ++ rest =
      (if first then [] else [octet ',']) ++ (written (quotedChars name) ++
        octet ':' :: (written v.chars ++ (written (further ms) ++ rest))) := by
  have hmember : written (memberChars ((name, v) :: ms)) ++ rest = written (quotedChars name) ++
      octet ':' :: (written v.chars ++ (written (further ms) ++ rest)) := by
    rw [memberChars_cons, written_append, written_cons, written_append, List.append_assoc,
      List.append_assoc, List.append_assoc]
    rfl
  cases first with
  | true => exact hmember
  | false =>
    simp only [Bool.false_eq_true, if_false]
    rw [further, written_cons, List.append_assoc, hmember]
    rfl

/-- The run over the members of an object. -/
theorem namedFields_printed {given given' : List String} {a a' : α} {ms : List (String × Json)}
    (h : Fills fields given a ms given' a')
    (hall : (fields.all fun f => !f.required || given'.contains f.name) = true)
    (rest : List UInt8) (fuel : Nat) (first : Bool) (hfuel : ms.length < fuel) :
    namedFields fields fuel given first a
      (written (if first then memberChars ms else further ms) ++ octet '\x7d' :: rest) =
        .ok (a', rest) := by
  -- the fuel and the names that are given change from member to member
  induction h generalizing fuel first with
  | done given a =>
    obtain ⟨fuel, rfl⟩ := Nat.exists_eq_succ_of_ne_zero (Nat.ne_of_gt hfuel)
    have hnil : written (if first then memberChars [] else further []) = [] := by
      cases first <;> rfl
    rw [hnil, List.nil_append, namedFields, dropSpace_cons (by decide)]
    simp only [if_true, hall]
  | set fresh named read hrest ih =>
    obtain ⟨fuel, rfl⟩ := Nat.exists_eq_succ_of_ne_zero (Nat.ne_of_gt (Nat.zero_lt_of_lt hfuel))
    rw [written_members, namedFields_member fuel first _ fresh, named]
    simp only [read _ (ends_further _ rest), ok_bind]
    exact ih hall fuel false (Nat.lt_of_succ_lt_succ hfuel)
  | skip fresh unnamed read hrest ih =>
    obtain ⟨fuel, rfl⟩ := Nat.exists_eq_succ_of_ne_zero (Nat.ne_of_gt (Nat.zero_lt_of_lt hfuel))
    rw [written_members, namedFields_member fuel first _ fresh, unnamed]
    simp only [read _ (ends_further _ rest), ok_bind]
    exact ih hall fuel false (Nat.lt_of_succ_lt_succ hfuel)

/-- Every member takes an octet, so the reader has fuel for all of them. -/
theorem length_le_written (ms : List (String × Json)) :
    ms.length ≤ (written (memberChars ms)).length := by
  induction ms with
  | nil => exact Nat.zero_le _
  | cons m ms ih =>
    obtain ⟨name, v⟩ := m
    have hmember := congrArg List.length (written_members true name v ms [])
    have hfurther : ms.length ≤ (written (further ms)).length := by
      cases ms with
      | nil => exact Nat.zero_le _
      | cons m ms =>
        rw [further, written_cons, List.length_append]
        omega
    simp only [if_true, List.length_append, List.length_cons, List.length_nil] at hmember ⊢
    omega

/-- **A record is read back** from a printed object whose members fill it. -/
theorem record_printed (given : List String) {start a : α} {ms : List (String × Json)}
    (h : Fills fields [] start ms given a)
    (hall : (fields.all fun f => !f.required || given.contains f.name) = true) :
    whole (record fields start) (octets (text (.obj ms))) = .ok a := by
  have hfuel : ms.length < (written (memberChars ms) ++ [octet '\x7d']).length + 1 := by
    have := length_le_written ms
    rw [List.length_append]
    omega
  have hread : record fields start
      (octet '\x7b' :: (written (memberChars ms) ++ [octet '\x7d'])) = .ok (a, []) := by
    rw [record, dropSpace_cons (by decide)]
    exact namedFields_printed h hall [] _ true hfuel
  have hoctets : octets (text (.obj ms)) =
      octet '\x7b' :: (written (memberChars ms) ++ [octet '\x7d']) := by
    rw [text, octets_ofList, chars, List.cons_append, written_cons, written_append]
    rfl
  rw [hoctets, whole, hread]
  rfl

end Json

end SharedLedger
