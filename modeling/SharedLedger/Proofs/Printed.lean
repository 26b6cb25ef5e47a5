import SharedLedger.Json.Value
import Mathlib.Algebra.Order.Ring.Int
import Mathlib.Data.List.Basic

/-!
# What is printed is read back

The octets of a text are those of its characters one after the other
(`octets_ofList`). A string that was printed is read back whatever it holds
(`attemptString_printed`) and can be passed over (`skipString_printed`), and
so is a count (`lexeme_printed`), wherever what follows does not go on with
the number.
-/

namespace SharedLedger

namespace Json

/-! ## Octets of a text -/

/-- The octets of characters. -/
def written (cs : List Char) : List UInt8 := cs.flatMap String.utf8EncodeChar

@[simp] theorem written_nil : written [] = [] := rfl

@[simp] theorem written_cons (c : Char) (cs : List Char) :
    written (c :: cs) = String.utf8EncodeChar c ++ written cs := List.flatMap_cons

@[simp] theorem written_append (cs ds : List Char) :
    written (cs ++ ds) = written cs ++ written ds := List.flatMap_append

private theorem toList_loop (b : ByteArray) (i : Nat) (front : List UInt8) :
    ByteArray.toList.loop b i front = front.reverse ++ b.data.toList.drop i := by
  fun_induction ByteArray.toList.loop b i front with
  | case1 i front hi ih =>
    have hlength : i < b.data.toList.length := by simpa using hi
    have hget : b.get! i = b.data[i]! := by cases b; rfl
    rw [ih, List.drop_eq_getElem_cons hlength, hget, getElem!_pos b.data i hi]
    simp only [List.reverse_cons, List.append_assoc, List.singleton_append, Array.getElem_toList]
  | case2 i front hi =>
    rw [List.drop_eq_nil_of_le (by simpa using Nat.le_of_not_lt hi), List.append_nil]

theorem octets_eq (s : String) : octets s = s.toByteArray.data.toList := by
  change ByteArray.toList.loop s.toByteArray 0 [] = _
  rw [toList_loop, List.reverse_nil, List.nil_append, List.drop_zero]

theorem octets_ofList (cs : List Char) : octets (String.ofList cs) = written cs := by
  rw [octets_eq, String.toByteArray_ofList, List.utf8Encode, List.toList_data_toByteArray, written]

theorem octets_eq_written (s : String) : octets s = written s.toList := by
  rw [← octets_ofList, String.ofList_toList]

/-- The octets of a text are those of no other. -/
theorem fromUTF8?_written (s : String) :
    String.fromUTF8? ⟨(written s.toList).toArray⟩ = some s := by
  have hbytes : (⟨(written s.toList).toArray⟩ : ByteArray) = s.toByteArray := by
    rw [← octets_eq_written, octets_eq]
  rw [hbytes, String.fromUTF8?, dif_pos s.isValidUTF8]
  exact congrArg some (String.toByteArray_inj.mp rfl)

/-! ## One character -/

/-- An octet inside a string that stands for itself. -/
def Plain (b : UInt8) : Prop := b ≠ octet '"' ∧ ¬b < 0x20 ∧ b ≠ octet '\\'

instance (b : UInt8) : Decidable (Plain b) := inferInstanceAs (Decidable (_ ∧ _ ∧ _))

theorem plain_of_le {b : UInt8} (h : 0x80 ≤ b) : Plain b := by
  have hb : 128 ≤ b.toNat := h
  refine ⟨?_, ?_, ?_⟩
  · rintro rfl; exact absurd hb (by decide)
  · intro hlt; have : b.toNat < 32 := hlt; omega
  · rintro rfl; exact absurd hb (by decide)

/-- A character of one octet. -/
theorem encodeChar_ascii {c : Char} (h : c.toNat < 128) : String.utf8EncodeChar c = [octet c] :=
  String.utf8EncodeChar_eq_singleton (Char.utf8Size_eq_one_iff.mpr (Nat.le_of_lt_succ h))

theorem plain_octet {c : Char} (h : c.toNat < 128) (hquote : c ≠ '"') (hslash : c ≠ '\\')
    (hcontrol : ¬c.toNat < 0x20) : Plain (octet c) := by
  have hvalue : (octet c).toNat = c.toNat := Nat.mod_eq_of_lt (by change c.toNat < 256; omega)
  have hne {d : Char} (hd : (octet d).toNat = d.toNat) (hcd : c ≠ d) : octet c ≠ octet d := by
    intro heq
    exact hcd (Char.toNat_inj.mp (by rw [← hvalue, heq, hd]))
  refine ⟨hne rfl hquote, fun hlt => ?_, hne rfl hslash⟩
  exact hcontrol (hvalue ▸ UInt8.lt_iff_toNat_lt.mp hlt)

/-- All octets of a character that is not escaped stand for themselves. -/
theorem plain_encodeChar {c : Char} (hquote : c ≠ '"') (hslash : c ≠ '\\')
    (hcontrol : ¬c.toNat < 0x20) : ∀ b ∈ String.utf8EncodeChar c, Plain b := by
  have hhigh (n : Nat) (h : 128 ≤ n) (h' : n < 256) : Plain (UInt8.ofNat n) :=
    plain_of_le (UInt8.le_iff_toNat_le.mpr (by
      rw [UInt8.toNat_ofNat', Nat.mod_eq_of_lt (by omega)]; exact h))
  by_cases hascii : c.toNat < 128
  · intro b hb
    rw [encodeChar_ascii hascii, List.mem_singleton] at hb
    exact hb ▸ plain_octet hascii hquote hslash hcontrol
  · have hv : 128 ≤ c.val.toNat := Nat.le_of_not_lt hascii
    intro b hb
    simp only [String.utf8EncodeChar] at hb
    split at hb
    · omega
    split at hb
    · simp only [List.mem_cons, List.not_mem_nil, or_false] at hb
      obtain rfl | rfl := hb <;> exact hhigh _ (by omega) (by omega)
    split at hb <;> simp only [List.mem_cons, List.not_mem_nil, or_false] at hb
    · obtain rfl | rfl | rfl := hb <;> exact hhigh _ (by omega) (by omega)
    · obtain rfl | rfl | rfl | rfl := hb <;> exact hhigh _ (by omega) (by omega)

/-! ## Strings -/

theorem content_plain {bs : List UInt8} (h : ∀ b ∈ bs, Plain b) (rest : List UInt8) :
    content (bs ++ rest) = prepend bs (content rest) := by
  induction bs with
  | nil => rw [List.nil_append]; cases content rest <;> rfl
  | cons b bs ih =>
    obtain ⟨hquote, hcontrol, hslash⟩ := h b List.mem_cons_self
    rw [List.cons_append, content.eq_def]
    simp only [if_neg hquote, if_neg hcontrol, if_pos hslash]
    rw [ih fun c hc => h c (List.mem_cons_of_mem _ hc)]
    cases content rest <;> rfl

theorem skipString_plain {bs : List UInt8} (h : ∀ b ∈ bs, Plain b) (rest : List UInt8) :
    skipString (bs ++ rest) = skipString rest := by
  induction bs with
  | nil => rfl
  | cons b bs ih =>
    obtain ⟨hquote, hcontrol, hslash⟩ := h b List.mem_cons_self
    rw [List.cons_append, skipString.eq_def]
    simp only [if_neg hquote, if_neg hcontrol, if_pos hslash]
    exact ih fun c hc => h c (List.mem_cons_of_mem _ hc)

theorem hexChar_lt : ∀ n < 16, (hexChar n).toNat < 128 := by decide

theorem hexQuad?_hexChar : ∀ n < 32, hexQuad? (octet '0') (octet '0') (octet (hexChar (n / 16)))
    (octet (hexChar (n % 16))) = some n := by decide

theorem codePoint_toNat (c : Char) : codePoint c.toNat = String.utf8EncodeChar c := by
  rw [codePoint, octets_eq_written, Char.ofNat_toNat, String.toList_singleton, written_cons,
    written_nil, List.append_nil]

/-- How a character stands inside a string: escaped by a letter, as a code
point, or as it is. -/
theorem written_escapedChar (c : Char) :
    (c = '"' ∧ written (escapedChar c) = [octet '\\', octet '"']) ∨
    (c = '\\' ∧ written (escapedChar c) = [octet '\\', octet '\\']) ∨
    (c.toNat < 0x20 ∧ written (escapedChar c) = [octet '\\', octet 'u', octet '0', octet '0',
      octet (hexChar (c.toNat / 16)), octet (hexChar (c.toNat % 16))]) ∨
    ((∀ b ∈ String.utf8EncodeChar c, Plain b) ∧
      written (escapedChar c) = String.utf8EncodeChar c) := by
  by_cases hquote : c = '"'
  · exact .inl ⟨hquote, by rw [hquote]; rfl⟩
  by_cases hslash : c = '\\'
  · exact .inr (.inl ⟨hslash, by rw [hslash]; rfl⟩)
  by_cases hcontrol : c.toNat < 0x20
  · refine .inr (.inr (.inl ⟨hcontrol, ?_⟩))
    rw [escapedChar, if_neg hquote, if_neg hslash, if_pos hcontrol]
    simp only [written_cons, written_nil,
      encodeChar_ascii (hexChar_lt (c.toNat / 16) (by omega)),
      encodeChar_ascii (hexChar_lt (c.toNat % 16) (by omega)),
      encodeChar_ascii (show '\\'.toNat < 128 by decide),
      encodeChar_ascii (show 'u'.toNat < 128 by decide),
      encodeChar_ascii (show '0'.toNat < 128 by decide), List.singleton_append]
  · refine .inr (.inr (.inr ⟨plain_encodeChar hquote hslash hcontrol, ?_⟩))
    rw [escapedChar, if_neg hquote, if_neg hslash, if_neg hcontrol, written_cons, written_nil,
      List.append_nil]

theorem content_escapedChar (c : Char) (rest : List UInt8) :
    content (written (escapedChar c) ++ rest) =
      prepend (String.utf8EncodeChar c) (content rest) := by
  obtain ⟨rfl, h⟩ | ⟨rfl, h⟩ | ⟨hc, h⟩ | ⟨hplain, h⟩ := written_escapedChar c
  all_goals rw [h]
  · exact content.eq_def _
  · exact content.eq_def _
  · rw [← codePoint_toNat]
    simp only [List.cons_append, List.nil_append]
    rw [content.eq_def]
    simp only [hexQuad?_hexChar _ hc, show c.toNat < 0xD800 by omega]
    rfl
  · exact content_plain hplain rest

theorem skipString_escapedChar (c : Char) (rest : List UInt8) :
    skipString (written (escapedChar c) ++ rest) = skipString rest := by
  obtain ⟨rfl, h⟩ | ⟨rfl, h⟩ | ⟨hc, h⟩ | ⟨hplain, h⟩ := written_escapedChar c
  all_goals rw [h]
  · exact skipString.eq_def _
  · exact skipString.eq_def _
  · simp only [List.cons_append, List.nil_append]
    rw [skipString.eq_def]
    simp only [hexQuad?_hexChar _ hc]
    rfl
  · exact skipString_plain hplain rest

theorem content_escaped (cs : List Char) (rest : List UInt8) :
    content (written (cs.flatMap escapedChar) ++ octet '"' :: rest) = .ok (written cs, rest) := by
  induction cs with
  | nil => exact content.eq_def _
  | cons c cs ih =>
    rw [List.flatMap_cons, written_append, List.append_assoc, content_escapedChar, ih, written_cons]
    rfl

theorem skipString_escaped (cs : List Char) (rest : List UInt8) :
    skipString (written (cs.flatMap escapedChar) ++ octet '"' :: rest) = .ok rest := by
  induction cs with
  | nil => exact skipString.eq_def _
  | cons c cs ih =>
    rw [List.flatMap_cons, written_append, List.append_assoc, skipString_escapedChar, ih]

theorem written_quotedChars (s : String) (rest : List UInt8) :
    written (quotedChars s) ++ rest =
      octet '"' :: (written (s.toList.flatMap escapedChar) ++ octet '"' :: rest) := by
  rw [quotedChars, List.cons_append, written_cons, written_append, List.append_assoc,
    List.append_assoc]
  rfl

/-- **A string is read back**, from behind its opening quote. -/
theorem attemptString_printed (s : String) (rest : List UInt8) :
    attemptString (written (s.toList.flatMap escapedChar) ++ octet '"' :: rest) =
      .ok (s, rest) := by
  rw [attemptString, content_escaped]
  simp only [fromUTF8?_written]

theorem string_printed (s : String) (rest : List UInt8) :
    string (written (s.toList.flatMap escapedChar) ++ octet '"' :: rest) = .ok (s, rest) := by
  rw [string, Attempt.reader, attemptString_printed]

/-! ## Counts -/

/-- The digits of a count. -/
def digitsOf (n : Nat) : List Nat := (Nat.toDigits 10 n).map fun c => c.toNat - '0'.toNat

theorem digitsOf_of_lt {n : Nat} (h : n < 10) : digitsOf n = [n] := by
  rw [digitsOf, Nat.toDigits_of_lt_base h, List.map_singleton]
  exact congrArg (fun d => [d]) (Nat.toNat_digitChar_sub_48_of_lt_ten h)

theorem digitsOf_of_le {n : Nat} (h : 10 ≤ n) : digitsOf n = digitsOf (n / 10) ++ [n % 10] := by
  rw [digitsOf, Nat.toDigits_of_base_le (by decide) h, List.map_append, List.map_singleton]
  exact congrArg (fun d => digitsOf (n / 10) ++ [d])
    (Nat.toNat_digitChar_sub_48_of_lt_ten (Nat.mod_lt n (by decide)))

theorem digitsOf_lt (n : Nat) : ∀ d ∈ digitsOf n, d < 10 := by
  induction n using Nat.strongRecOn with
  | ind n ih =>
    obtain h | h := Nat.lt_or_ge n 10
    · rw [digitsOf_of_lt h]
      exact fun d hd => List.mem_singleton.mp hd ▸ h
    · rw [digitsOf_of_le h]
      intro d hd
      obtain hd | hd := List.mem_append.mp hd
      · exact ih (n / 10) (by omega) d hd
      · exact List.mem_singleton.mp hd ▸ Nat.mod_lt n (by decide)

theorem foldl_digitsOf (n : Nat) : (digitsOf n).foldl (fun n d => 10 * n + d) 0 = n := by
  rw [digitsOf, List.foldl_map, ← Nat.ofDigitChars_eq_foldl, Nat.ofDigitChars_ten_toDigits]

theorem exists_digitsOf {n : Nat} (h : 0 < n) : ∃ d ds, digitsOf n = d :: ds ∧ d ≠ 0 := by
  induction n using Nat.strongRecOn with
  | ind n ih =>
    obtain hn | hn := Nat.lt_or_ge n 10
    · exact ⟨n, [], digitsOf_of_lt hn, by omega⟩
    · obtain ⟨d, ds, hds, hd⟩ := ih (n / 10) (by omega) (by omega)
      exact ⟨d, ds ++ [n % 10], by rw [digitsOf_of_le hn, hds, List.cons_append], hd⟩

/-- No count but zero begins with a zero. -/
theorem digitsOf_canonical (n : Nat) :
    ¬((digitsOf n).isEmpty ∨ (digitsOf n).head? = some 0 ∧ 1 < (digitsOf n).length) := by
  obtain rfl | h := Nat.eq_zero_or_pos n
  · decide
  · obtain ⟨d, ds, hds, hd⟩ := exists_digitsOf h
    rw [hds]
    rintro (hempty | ⟨hhead, -⟩)
    · cases hempty
    · exact hd (Option.some.inj hhead)

theorem ofInt_natCast (n : Nat) : Lexeme.ofInt n = ⟨false, digitsOf n, [], none⟩ := by
  rw [Lexeme.ofInt, Int.natAbs_natCast, decide_eq_false (by omega), digitsOf]

theorem chars_ofNat (n : Nat) : (ofNat n).chars = (digitsOf n).map Nat.digitChar := by
  rw [ofNat, chars, ofInt_natCast]
  exact (List.append_nil _).trans (List.append_nil _)

theorem number?_ofInt {n : Nat} (h : n < 2 ^ 64) :
    (Lexeme.ofInt n).number? = some (.integer n) := by
  rw [ofInt_natCast, Lexeme.number?]
  simp only [foldl_digitsOf]
  exact if_pos (decide_eq_true h)

/-- Where the value of a member ends: at a comma or at the closing brace. -/
inductive Ends : List UInt8 → Prop
  | comma (rest : List UInt8) : Ends (octet ',' :: rest)
  | brace (rest : List UInt8) : Ends (octet '\x7d' :: rest)

theorem encodeChar_digitChar : ∀ d < 10,
    String.utf8EncodeChar (Nat.digitChar d) = [octet (Nat.digitChar d)] := by decide

theorem digit?_digitChar : ∀ d < 10, digit? (octet (Nat.digitChar d)) = some d := by decide

theorem takeDigits_printed {ds : List Nat} {more : List UInt8} (hds : ∀ d ∈ ds, d < 10)
    (hmore : Ends more) : takeDigits (written (ds.map Nat.digitChar) ++ more) = (ds, more) := by
  induction ds with
  | nil => cases hmore <;> rfl
  | cons d ds ih =>
    have hd := hds d List.mem_cons_self
    rw [List.map_cons, written_cons, encodeChar_digitChar d hd, List.singleton_append,
      List.cons_append, takeDigits, digit?_digitChar d hd]
    simp only [ih fun e he => hds e (List.mem_cons_of_mem _ he)]

/-- The first digit of a count. -/
theorem written_ofNat (n : Nat) : ∃ d bs, d < 10 ∧
    written (ofNat n).chars = octet (Nat.digitChar d) :: bs := by
  rw [chars_ofNat]
  cases hds : digitsOf n with
  | nil => exact absurd (.inl (by rw [hds]; rfl)) (digitsOf_canonical n)
  | cons d ds =>
    have hd : d < 10 := digitsOf_lt n d (hds ▸ List.mem_cons_self)
    exact ⟨d, written (ds.map Nat.digitChar), hd, by
      rw [List.map_cons, written_cons, encodeChar_digitChar d hd, List.singleton_append]⟩

/-- A digit is no sign, no space and no bracket, and begins a number. -/
theorem digit_begins : ∀ d < 10, octet (Nat.digitChar d) ≠ octet '-' ∧
    isSpace (octet (Nat.digitChar d)) = false := by decide

/-- **A count is read back.** -/
theorem lexeme_printed (n : Nat) {more : List UInt8} (hmore : Ends more) :
    lexeme (written (ofNat n).chars ++ more) = .ok (.ofInt n, more) := by
  have hdigits : takeDigits (written (ofNat n).chars ++ more) = (digitsOf n, more) :=
    chars_ofNat n ▸ takeDigits_printed (digitsOf_lt n) hmore
  obtain ⟨d, bs, hd, hbs⟩ := written_ofNat n
  rw [hbs] at hdigits ⊢
  rw [List.cons_append] at hdigits ⊢
  rw [lexeme.eq_def]
  simp only [if_neg (digit_begins d hd).1, hdigits, if_neg (digitsOf_canonical n)]
  rw [ofInt_natCast]
  cases hmore <;> rfl

end Json

end SharedLedger
