import SharedLedger.Proofs.Admission

/-!
# Cookies are read back

A cookie header as a browser writes it: segments between semicolons, some of
them cookies with blanks around them, the others text without an equals sign
(`Cookie.Written`). Read back, such a header has the cookies that were written,
in the order in which they were written (`ofHeader_listing`), so that a look-up
answers with the first one of its name (`find?_written`). What stands inside
the name or the value of another cookie is never found.
-/

namespace SharedLedger

namespace Cookie

variable {c : Char} {cs ds : List Char}

/-! ## Pieces and blanks -/

theorem pieces_ne_nil (separator : Char) (cs : List Char) : pieces separator cs ≠ [] := by
  cases cs with
  | nil => exact List.cons_ne_nil _ _
  | cons c cs =>
    rw [pieces]
    split
    · exact List.cons_ne_nil _ _
    · split <;> exact List.cons_ne_nil _ _

/-- A separator keeps apart what stands on either side of it. -/
theorem pieces_append (separator : Char) (cs ds : List Char) :
    pieces separator (cs ++ separator :: ds) = pieces separator cs ++ pieces separator ds := by
  induction cs with
  | nil => simp [pieces]
  | cons c cs ih =>
    rw [List.cons_append, pieces, pieces, ih]
    obtain ⟨p, ps, hpieces⟩ := List.exists_cons_of_ne_nil (pieces_ne_nil separator cs)
    split
    · rfl
    · rw [hpieces]
      rfl

theorem pieces_of_notMem {separator : Char} (h : separator ∉ cs) : pieces separator cs = [cs] := by
  induction cs with
  | nil => rfl
  | cons c cs ih =>
    obtain ⟨hc, hcs⟩ := not_or.1 (List.mem_cons.not.1 h)
    rw [pieces, if_neg (Ne.symm hc), ih hcs]

/-- Blanks are dropped as far as the first character that is none. -/
theorem dropWhile_blank_append (hblank : ∀ c ∈ cs, Text.isBlank c = true)
    (hstop : ∀ c ∈ ds.head?, Text.isBlank c = false) :
    (cs ++ ds).dropWhile Text.isBlank = ds := by
  rw [List.dropWhile_append_of_pos hblank]
  cases ds with
  | nil => rfl
  | cons d ds => exact List.dropWhile_cons_of_neg (by simpa using hstop d rfl)

/-- Only the blanks around a text are dropped. -/
theorem trim_append {lead trail : List Char} (hlead : ∀ c ∈ lead, Text.isBlank c = true)
    (htrail : ∀ c ∈ trail, Text.isBlank c = true) (hne : cs ≠ [])
    (hfirst : ∀ c ∈ cs.head?, Text.isBlank c = false)
    (hlast : ∀ c ∈ cs.getLast?, Text.isBlank c = false) :
    Text.trim (lead ++ cs ++ trail) = cs := by
  have hleft : Text.trimLeft (lead ++ cs ++ trail) = cs ++ trail := by
    rw [Text.trimLeft, List.append_assoc]
    refine dropWhile_blank_append hlead fun c hc => hfirst c ?_
    rwa [List.head?_append_of_ne_nil cs hne] at hc
  have hright : (trail.reverse ++ cs.reverse).dropWhile Text.isBlank = cs.reverse := by
    refine dropWhile_blank_append (fun c hc => htrail c (List.mem_reverse.1 hc)) fun c hc => ?_
    rw [List.head?_reverse] at hc
    exact hlast c hc
  rw [Text.trim, hleft, Text.trimRight, List.reverse_append, hright, List.reverse_reverse]

/-! ## Headers as they are written -/

/-- A cookie with the blanks around it. A blank in front of the equals sign
would belong to the name, and one behind it belongs to the value. -/
structure Named where
  lead : List Char
  name : String
  value : String
  trail : List Char
  lead_blank : ∀ c ∈ lead, Text.isBlank c = true
  trail_blank : ∀ c ∈ trail, Text.isBlank c = true
  name_plain : '=' ∉ name.toList ∧ ';' ∉ name.toList
  name_first : ∀ c ∈ name.toList.head?, Text.isBlank c = false
  value_plain : ';' ∉ value.toList
  value_last : ∀ c ∈ value.toList.getLast?, Text.isBlank c = false

/-- A segment of a header. -/
inductive Segment where
  | cookie (n : Named)
  | other (text : List Char) (h : '=' ∉ text)

/-- A header: text that cannot be read, or segments between semicolons. -/
inductive Written where
  | garbled (text : String) (h : isReadable text = false)
  | listing (segments : List Segment)

namespace Named

/-- Name and value, with the equals sign between them. -/
def core (n : Named) : List Char := n.name.toList ++ '=' :: n.value.toList

def text (n : Named) : List Char := n.lead ++ n.core ++ n.trail

theorem core_first (n : Named) : ∀ c ∈ n.core.head?, Text.isBlank c = false := by
  intro c hc
  rw [core, List.head?_append, List.head?_cons] at hc
  cases hfirst : n.name.toList.head? with
  | none =>
    obtain rfl : '=' = c := by simpa [hfirst] using hc
    rfl
  | some d =>
    obtain rfl : d = c := by simpa [hfirst] using hc
    exact n.name_first d hfirst

theorem core_last (n : Named) : ∀ c ∈ n.core.getLast?, Text.isBlank c = false := by
  intro c hc
  rw [core, List.getLast?_append, List.getLast?_cons] at hc
  cases hlast : n.value.toList.getLast? with
  | none =>
    obtain rfl : '=' = c := by simpa [hlast] using hc
    rfl
  | some d =>
    obtain rfl : d = c := by simpa [hlast] using hc
    exact n.value_last d hlast

/-- What the cookie is read as. -/
def pair (n : Named) : List Char × List Char := (n.name.toList, n.value.toList)

/-- **A cookie is read as it was written**, without the blanks around it. -/
theorem ofSegment?_text (n : Named) : ofSegment? n.text = some n.pair := by
  have hne : n.core ≠ [] := List.append_ne_nil_of_right_ne_nil _ (List.cons_ne_nil _ _)
  exact ofSegment?_eq_some_iff.2
    ⟨trim_append n.lead_blank n.trail_blank hne n.core_first n.core_last, n.name_plain.1⟩

theorem notMem_text (n : Named) : ';' ∉ n.text := by
  have hblank {cs : List Char} (h : ∀ c ∈ cs, Text.isBlank c = true) : ';' ∉ cs :=
    fun hmem => absurd (h ';' hmem) (by decide)
  simp only [text, core, List.mem_append, List.mem_cons, not_or]
  exact ⟨⟨hblank n.lead_blank, n.name_plain.2, by decide, n.value_plain⟩, hblank n.trail_blank⟩

end Named

namespace Segment

def text : Segment → List Char
  | cookie n => n.text
  | other text _ => text

/-- The cookie that a segment is, if it is one. -/
def named? : Segment → Option Named
  | cookie n => some n
  | other _ _ => none

/-- **A segment is read as the cookie that it is**, or as none: in text without
an equals sign there is no cookie, even if semicolons cut it up. -/
theorem filterMap_pieces (s : Segment) : (pieces ';' s.text).filterMap ofSegment? =
    ([s].filterMap named?).map Named.pair := by
  cases s with
  | cookie n => simp [text, named?, pieces_of_notMem n.notMem_text, n.ofSegment?_text]
  | other t h =>
    refine List.filterMap_eq_nil_iff.2 fun p hp => Option.eq_none_iff_forall_ne_some.2 ?_
    rintro ⟨name, value⟩ hsome
    obtain ⟨htrim, -⟩ := ofSegment?_eq_some_iff.1 hsome
    have hin : '=' ∈ Text.trim p := htrim ▸ List.mem_append_right name List.mem_cons_self
    exact h (mem_of_mem_pieces hp (mem_of_mem_trim hin))

end Segment

namespace Written

/-- The header as it is sent. -/
def text : Written → String
  | garbled text _ => text
  | listing segments => String.ofList ([';'].intercalate (segments.map Segment.text))

/-- The cookies of a header that can be read. -/
def cookies (w : Written) : List Named :=
  match w with
  | garbled _ _ => []
  | listing segments => if isReadable w.text then segments.filterMap Segment.named? else []

/-- **A header is read as the cookies written into it**, in their order. -/
theorem ofHeader_listing (segments : List Segment) :
    ofHeader (listing segments).text = (segments.filterMap Segment.named?).map Named.pair := by
  rw [ofHeader, text, String.toList_ofList]
  induction segments with
  | nil => rfl
  | cons s rest ih =>
    cases rest with
    | nil =>
      rw [List.map_singleton, List.intercalate_singleton]
      exact s.filterMap_pieces
    | cons s' rest =>
      have hcut : [';'].intercalate ((s :: s' :: rest).map Segment.text) =
          s.text ++ ';' :: [';'].intercalate ((s' :: rest).map Segment.text) := by
        simp only [List.map_cons, List.intercalate_cons_cons, List.append_assoc,
          List.singleton_append]
      rw [hcut, pieces_append, List.filterMap_append, ih, s.filterMap_pieces, ← List.map_append,
        ← List.filterMap_append, List.singleton_append]

theorem flatMap_ofHeader (headers : List Written) :
    ((headers.map text).filter isReadable).flatMap ofHeader =
      (headers.flatMap cookies).map Named.pair := by
  induction headers with
  | nil => rfl
  | cons w rest ih =>
    rw [List.map_cons, List.filter_cons, List.flatMap_cons, List.map_append, ← ih]
    cases w with
    | garbled t h => rw [if_neg (by simpa [text] using h)]; rfl
    | listing segments =>
      by_cases h : isReadable (listing segments).text = true
      · rw [if_pos h, List.flatMap_cons, ofHeader_listing, cookies, if_pos h]
      · rw [if_neg h, cookies, if_neg h]
        rfl

end Written

/-- A look-up goes through the cookies that were written. -/
theorem find?_text (headers : List Written) (name : String) :
    find? (headers.map Written.text) name =
      ((headers.flatMap Written.cookies).find? fun n => n.name = name).map Named.value := by
  have hname : (fun c : List Char × List Char => decide (c.1 = name.toList)) ∘ Named.pair =
      fun n => decide (n.name = name) := by
    funext n
    simp [Named.pair, String.toList_inj]
  have hvalue : (fun c : List Char × List Char => String.ofList c.2) ∘ Named.pair =
      Named.value := by
    funext n
    simp [Named.pair]
  unfold find?
  dsimp only
  rw [Written.flatMap_ofHeader, List.find?_map, Option.map_map, hname, hvalue]

/-- **Cookies are read back.** A look-up answers with the value of the first
cookie of just this name, over all headers that can be read, and with nothing
if there is none. So whatever it answers was written as the value of a cookie
of that name, and not inside another one. -/
theorem find?_written (headers : List Written) (name : String) :
    (∀ value, find? (headers.map Written.text) name = some value ↔
      ∃ before n after, headers.flatMap Written.cookies = before ++ n :: after ∧
        n.name = name ∧ n.value = value ∧ ∀ m ∈ before, m.name ≠ name) ∧
    (find? (headers.map Written.text) name = none ↔
      ∀ n ∈ headers.flatMap Written.cookies, n.name ≠ name) := by
  rw [find?_text]
  refine ⟨fun value => ?_, ?_⟩
  · rw [Option.map_eq_some_iff]
    constructor
    · rintro ⟨n, hfind, rfl⟩
      obtain ⟨hn, before, after, heq, hbefore⟩ := List.find?_eq_some_iff_append.1 hfind
      exact ⟨before, n, after, heq, of_decide_eq_true hn, rfl,
        fun m hm => by simpa using hbefore m hm⟩
    · rintro ⟨before, n, after, heq, hn, rfl, hbefore⟩
      exact ⟨n, List.find?_eq_some_iff_append.2
        ⟨decide_eq_true hn, before, after, heq, fun m hm => by simpa using hbefore m hm⟩, rfl⟩
  · rw [Option.map_eq_none_iff, List.find?_eq_none]
    simp only [decide_eq_true_eq, ne_eq]

end Cookie

namespace Sample

/-- Whether a name and a value stand for themselves: nothing in them, and no blank
at their ends, would be read as something else. -/
def isPlain (name value : String) : Bool :=
  !name.toList.contains '=' && !name.toList.contains ';' && !value.toList.contains ';' &&
    name.toList.head?.all (!Text.isBlank ·) && value.toList.getLast?.all (!Text.isBlank ·)

/-- A cookie with a blank on either side of it. -/
def spaced (name value : String) (h : isPlain name value = true) : Cookie.Named where
  lead := [' ']
  name := name
  value := value
  trail := [' ']
  lead_blank := by simp [Text.isBlank]
  trail_blank := by simp [Text.isBlank]
  name_plain := by simp_all [isPlain]
  name_first := by simp_all [isPlain, Option.all_eq_true]
  value_plain := by simp_all [isPlain]
  value_last := by simp_all [isPlain, Option.all_eq_true]

/-- A cookie that holds something like an access token in its value. -/
def decoy : Cookie.Named := spaced "x" "access_token=evil" (by decide +kernel)

/-- A cookie that holds an access token. -/
def ticket : Cookie.Named := spaced Cookie.access "abc" (by decide +kernel)

/-- A cookie that comes too late. -/
def late : Cookie.Named := spaced Cookie.access "d" (by decide +kernel)

/-- What a browser sends: a header that cannot be read, one with a decoy and
text that is no cookie in front of the token, and one more token. -/
def jar : List Cookie.Written :=
  [.garbled "access_token=é" (by decide +kernel),
    .listing [.cookie decoy, .other "access_token".toList (by decide +kernel), .cookie ticket],
    .listing [.cookie late]]

end Sample

/-- The access token is found behind the decoy, and there is no guard cookie. -/
theorem Cookie.find?_written_jar :
    Sample.jar.map Written.text =
      ["access_token=é", " x=access_token=evil ;access_token; access_token=abc ",
        " access_token=d "] ∧
    find? (Sample.jar.map Written.text) access = some "abc" ∧
    find? (Sample.jar.map Written.text) guard = none := by
  obtain ⟨hfound, -⟩ := find?_written Sample.jar access
  obtain ⟨-, habsent⟩ := find?_written Sample.jar guard
  have hcookies : Sample.jar.flatMap Written.cookies =
      [Sample.decoy] ++ Sample.ticket :: [Sample.late] := by rfl
  refine ⟨by decide +kernel, (hfound "abc").2 ?_, habsent.2 ?_⟩
  · exact ⟨_, _, _, hcookies, rfl, rfl, by decide +kernel⟩
  · rw [hcookies]
    decide +kernel

end SharedLedger
