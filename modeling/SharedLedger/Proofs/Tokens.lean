import SharedLedger.Token
import SharedLedger.Proofs.Base64Url
import SharedLedger.Proofs.Records

/-!
# What a token is good for

A token that was signed is read back through all its layers: the text is cut
at its points, each part is decoded, the signature is the one that was made,
and the claims are the ones that were written (`verify_sign`). So each token
of a pair is good for its user and its kind, for as long as its kind lives and
a minute longer, and for nothing else (`issuePair_goodFor`).
-/

namespace SharedLedger

/-! ## Subjects -/

namespace Numeral

theorem foldlM_digits {cs : List Char} (h : ∀ c ∈ cs, c.isDigit = true) (k : Nat) :
    cs.foldlM (fun n c =>
      if '0' ≤ c ∧ c ≤ '9' then some (10 * n + (c.toNat - '0'.toNat)) else none) k =
      some (Nat.ofDigitChars 10 cs k) := by
  induction cs generalizing k with
  | nil => rfl
  | cons c cs ih =>
    have hc : '0' ≤ c ∧ c ≤ '9' := by
      simpa [Char.isDigit, Char.le_def] using h c List.mem_cons_self
    rw [List.foldlM_cons, if_pos hc, Option.bind_eq_bind, Option.bind_some,
      ih fun d hd => h d (List.mem_cons_of_mem _ hd), Nat.ofDigitChars_cons]

theorem magnitude?_toDigits (n : Nat) : magnitude? (Nat.toDigits 10 n) = some n := by
  have hdigits : ∀ c ∈ Nat.toDigits 10 n, c.isDigit = true := fun c hc =>
    Nat.isDigit_of_mem_toDigits (by decide) (by decide) hc
  cases hcs : Nat.toDigits 10 n with
  | nil => exact absurd hcs Nat.toDigits_ne_nil
  | cons c cs =>
    rw [magnitude?, foldlM_digits (hcs ▸ hdigits), ← hcs, Nat.ofDigitChars_ten_toDigits]
    exact List.cons_ne_nil c cs

/-- Where a digit comes first there is no sign. -/
theorem signed?_digit {c : Char} (h : c.isDigit = true) (cs : List Char) :
    signed? (c :: cs) = (magnitude? (c :: cs)).map fun n => (n : Int) := by
  rw [signed?]
  · rintro cs' ⟨⟩
    exact absurd h (by decide)
  · rintro cs' ⟨⟩
    exact absurd h (by decide)

/-- **A number is read back** from its decimal text, whatever its sign. -/
theorem signed?_toString (n : Int) : signed? (toString n).toList = some n := by
  cases n with
  | ofNat m =>
    change signed? m.repr.toList = _
    rw [Nat.toList_repr]
    have hsigned : signed? (Nat.toDigits 10 m) =
        (magnitude? (Nat.toDigits 10 m)).map fun n => (n : Int) := by
      cases hcs : Nat.toDigits 10 m with
      | nil => exact absurd hcs Nat.toDigits_ne_nil
      | cons c cs =>
        have hmem : c ∈ Nat.toDigits 10 m := hcs ▸ List.mem_cons_self
        exact signed?_digit (Nat.isDigit_of_mem_toDigits (by decide) (by decide) hmem) cs
    rw [hsigned, magnitude?_toDigits]
    rfl
  | negSucc m =>
    change signed? ("-" ++ (m + 1).repr).toList = _
    rw [String.toList_append, Nat.toList_repr]
    have hsigned : signed? ("-".toList ++ Nat.toDigits 10 (m + 1)) =
        (magnitude? (Nat.toDigits 10 (m + 1))).map fun n => -(n : Int) := by
      rw [show "-".toList = ['-'] by decide]
      rfl
    rw [hsigned, magnitude?_toDigits]
    rfl

theorem int64?_toString {n : Int} (h : inInt64 n = true) :
    int64? (toString n).toList = some n := by
  rw [int64?, signed?_toString, Option.filter_some, if_pos h]

end Numeral

namespace Token

open Json

/-! ## Parts -/

theorem splitLast?_append (front : List Char) {back : List Char} (h : '.' ∉ back) :
    splitLast? (front ++ '.' :: back) = some (front, back) := by
  have hback : ∀ c ∈ back.reverse, decide (c ≠ '.') = true := by
    intro c hc
    exact decide_eq_true fun heq => h (heq ▸ List.mem_reverse.mp hc)
  have hreverse : (front ++ '.' :: back).reverse = back.reverse ++ '.' :: front.reverse := by simp
  rw [splitLast?, hreverse, List.dropWhile_append_of_pos hback, List.takeWhile_append_of_pos hback]
  simp

theorem part_encode {α : Type} {r : Reader α} {bs : List UInt8} {a : α}
    (h : whole r bs = .ok a) : part r (Base64Url.encode bs) = .ok a := by
  rw [part, Base64Url.decode?_encode]
  simp only [h]

theorem word_printed {α : Type} {f : String → Option α} {s : String} {a : α} (h : f s = some a)
    (more : List UInt8) : word f (written (chars (.str s)) ++ more) = .ok (a, more) := by
  rw [← parsedString_printed h more, written_str, word, dropSpace_cons (by decide)]
  exact (if_neg (by decide)).trans (if_pos rfl)

theorem unusedPart_printed {β : Type} (name s : String) (more : List UInt8) :
    (unusedPart name stringValue : Json.Field β).read (written (chars (.str s)) ++ more) =
      .ok (id, more) := by
  have hread := stringValue_printed s more
  rw [written_str] at hread ⊢
  change (Json.optional stringValue _).map _ = _
  rw [Json.optional, dropSpace_cons (by decide)]
  simp only [hread]
  rfl

theorem kindOf?_label (k : TokenKind) : kindOf? k.label = some k := by
  cases k <;> decide

theorem algorithm_read : whole algorithm headerOctets = .ok "HS256" :=
  record_printed ["alg", "typ"]
    (.set rfl rfl (fun more _ => unusedPart_printed _ _ more)
    (.set rfl rfl (fun more _ => Field.of_read (word_printed (by decide) more))
    (.done _ _)))
    (by decide)

/-- **Claims are read back.** -/
theorem claims_read {c : Claims} (hissued : c.issuedAt < 2 ^ 64) (hexpires : c.expiresAt < 2 ^ 64) :
    whole claims (claimsOctets c) = .ok c :=
  record_printed ["exp", "iat", "token_type", "sub"]
    (.set rfl rfl (fun more _ => Field.of_read (stringValue_printed c.subject more))
    (.set rfl rfl (fun more _ => Field.of_read (word_printed (kindOf?_label c.kind) more))
    (.set rfl rfl (fun _ hmore => Field.of_read (nat64_printed hissued hmore))
    (.set rfl rfl (fun _ hmore => Field.of_read (nat64_printed hexpires hmore))
    (.done _ _)))))
    (by decide)

/-- No audience is named. -/
theorem audience_read (c : Claims) : whole audience (claimsOctets c) = .ok false :=
  record_printed []
    (.skip rfl rfl (fun more _ => skipValue_str c.subject more)
    (.skip rfl rfl (fun more _ => skipValue_str c.kind.label more)
    (.skip rfl rfl (fun _ hmore => skipValue_ofNat c.issuedAt hmore)
    (.skip rfl rfl (fun _ hmore => skipValue_ofNat c.expiresAt hmore)
    (.done _ _)))))
    rfl

/-- **What was signed is accepted under the same secret until it has run out.** -/
theorem verify_sign (secret : String) {c : Claims} (hissued : c.issuedAt < 2 ^ 64)
    (hexpires : c.expiresAt < 2 ^ 64) (now : Nat) :
    verify secret now (sign secret c) =
      if c.expiresAt + leeway < now then .error .expired else .ok c := by
  have hsigned : '.' ∉ signature secret (Base64Url.encode headerOctets ++
      '.' :: Base64Url.encode (claimsOctets c)) := Base64Url.notMem_encode _
  have hpayload : '.' ∉ Base64Url.encode (claimsOctets c) := Base64Url.notMem_encode _
  rw [verify, sign, String.toList_ofList, splitLast?_append _ hsigned]
  simp only [splitLast?_append _ hpayload, part_encode algorithm_read,
    part_encode (claims_read hissued hexpires), part_encode (audience_read c), ok_bind, ne_eq,
    not_true_eq_false, if_false, Bool.false_eq_true]
  split <;> rfl

end Token

/-! ## Pairs -/

/-- The token of a kind in a pair. -/
def TokenPair.token (p : TokenPair) : TokenKind → String
  | .access => p.access
  | .refresh => p.refresh

namespace TokenService

/-- What a token of a kind that was issued for a user is good for. -/
structure GoodFor (s : TokenService) (u : Int) (issued : Nat) (kind : TokenKind)
    (token : String) : Prop where
  /-- As long as it lives, and a minute longer, it speaks for its user. -/
  accepted (now : Nat) (h : (now : Int) - 60 ≤ issued + s.lifetime kind) :
    ∃ c, s.validate now kind token = .ok c ∧ c.userId = .ok u ∧
      (c.expiresAt : Int) - c.issuedAt = s.lifetime kind
  /-- Later it is turned away. -/
  expired (now : Nat) (h : issued + s.lifetime kind < (now : Int) - 60) :
    s.validate now kind token = .error (.unauthenticated "Invalid token: ExpiredSignature")
  /-- It is never taken for a token of another kind. -/
  rejected (other : TokenKind) (h : other ≠ kind) (now : Nat) :
    ∃ why, s.validate now other token = .error (.unauthenticated why)

variable {s : TokenService} {u : Int} {t : Nat}

/-- What a token that was issued is validated to, at any time and as any kind. -/
theorem validate_issue {kind : TokenKind} (hpositive : 0 < s.lifetime kind)
    (hfits : (t : Int) + s.lifetime kind < 2 ^ 64) (now : Nat) (wanted : TokenKind) :
    s.validate now wanted (s.issue t u kind) =
      if (t : Int) + s.lifetime kind < (now : Int) - 60 then
        .error (.unauthenticated "Invalid token: ExpiredSignature")
      else if kind = wanted then .ok ⟨toString u, kind, t, (t + s.lifetime kind).toNat⟩
      else .error (.unauthenticated "Wrong token type") := by
  have hexpires : (((t : Int) + s.lifetime kind) % Nat.pow 2 64).toNat =
      (t + s.lifetime kind).toNat := by
    rw [Int.emod_eq_of_lt (by omega)]
    exact_mod_cast hfits
  have hverify := Token.verify_sign s.secret
    (c := ⟨toString u, kind, t, (t + s.lifetime kind).toNat⟩)
    (show t < 2 ^ 64 by omega) (show ((t : Int) + s.lifetime kind).toNat < 2 ^ 64 by omega) now
  rw [validate, issue, hexpires, hverify]
  by_cases hlate : (t : Int) + s.lifetime kind < (now : Int) - 60
  · have hleeway : ((t : Int) + s.lifetime kind).toNat + Token.leeway < now := by
      rw [Token.leeway]
      omega
    rw [if_pos hlate, if_pos hleeway]
    rfl
  · have hleeway : ¬((t : Int) + s.lifetime kind).toNat + Token.leeway < now := by
      rw [Token.leeway]
      omega
    rw [if_neg hlate, if_neg hleeway]

/-- **Each token of a pair is good for its user and its kind** while it lives. -/
theorem issuePair_goodFor (hid : Numeral.inInt64 u = true)
    (hpositive : ∀ kind, 0 < s.lifetime kind)
    (hfits : ∀ kind, (t : Int) + s.lifetime kind < 2 ^ 64) (kind : TokenKind) :
    s.GoodFor u t kind ((s.issuePair t u).token kind) := by
  have hissued : (s.issuePair t u).token kind = s.issue t u kind := by cases kind <;> rfl
  rw [hissued]
  have hvalidate := validate_issue (u := u) (hpositive kind) (hfits kind)
  refine ⟨fun now h => ?_, fun now h => ?_, fun other h now => ?_⟩
  · refine ⟨⟨toString u, kind, t, (t + s.lifetime kind).toNat⟩, ?_, ?_, ?_⟩
    · rw [hvalidate, if_neg (by omega), if_pos rfl]
    · rw [Claims.userId, Numeral.int64?_toString hid]
    · have hlife := hpositive kind
      change (((t : Int) + s.lifetime kind).toNat : Int) - t = s.lifetime kind
      omega
  · rw [hvalidate, if_pos h]
  · rw [hvalidate, if_neg h.symm]
    split
    · exact ⟨_, rfl⟩
    · exact ⟨_, rfl⟩

/-- A pair for the lowest user, issued in the last hours a word of 64 bits can tell. -/
theorem issuePair_goodFor_lowest :
    let s : TokenService := ⟨"", 1, 3600⟩
    let pair := s.issuePair 18446744073709548000 (-9223372036854775808)
    s.GoodFor (-9223372036854775808) 18446744073709548000 .access pair.access ∧
      s.GoodFor (-9223372036854775808) 18446744073709548000 .refresh pair.refresh :=
  ⟨issuePair_goodFor (by decide) (fun kind => by cases kind <;> decide)
      (fun kind => by cases kind <;> decide) .access,
    issuePair_goodFor (by decide) (fun kind => by cases kind <;> decide)
      (fun kind => by cases kind <;> decide) .refresh⟩

end TokenService

end SharedLedger
