import SharedLedger.Text.Blank
import SharedLedger.Text.Numeral

/-!
# Calendar dates

A `Date` is a day of the proleptic Gregorian calendar, within the years that
are supported. `ofText?` reads `year-month-day` with white space allowed
around each part; `text` writes the one canonical form.
-/

namespace SharedLedger

/-- Years divisible by four are leap years, but of the centuries only every
fourth. -/
def isLeapYear (y : Int) : Bool := y % 4 == 0 && (y % 100 != 0 || y % 400 == 0)

/-- The length of a month; no other month has a day. -/
def daysInMonth (y : Int) (m : Nat) : Nat :=
  match m with
  | 1 | 3 | 5 | 7 | 8 | 10 | 12 => 31
  | 4 | 6 | 9 | 11 => 30
  | 2 => if isLeapYear y then 29 else 28
  | _ => 0

/-- A day of the calendar. -/
structure Date where
  year : Int
  month : Nat
  day : Nat
  year_range : -262143 ≤ year ∧ year ≤ 262142
  day_range : 1 ≤ day ∧ day ≤ daysInMonth year month
  deriving DecidableEq

namespace Date

/-- The first day of 1970. -/
def epoch : Date := ⟨1970, 1, 1, by decide, by decide⟩

instance : Inhabited Date := ⟨epoch⟩

/-- The day with the given parts, if there is one. -/
def ofParts? (year : Int) (month day : Nat) : Option Date :=
  if h : (-262143 ≤ year ∧ year ≤ 262142) ∧ 1 ≤ day ∧ day ≤ daysInMonth year month then
    some ⟨year, month, day, h.1, h.2⟩
  else none

/-! ## Reading -/

/-- Up to `width` digits off the front, at least one. -/
def takeNumber (width : Nat) (cs : List Char) : Option (Nat × List Char) :=
  let ds := (cs.take width).takeWhile fun c => '0' ≤ c ∧ c ≤ '9'
  (Numeral.magnitude? ds).map fun n => (n, cs.drop ds.length)

/-- The year: four digits at most, or any number of them behind a sign. -/
def takeYear (cs : List Char) : Option (Int × List Char) :=
  match Text.trimLeft cs with
  | '-' :: r => (takeNumber r.length r).map fun (n, r) => (-(n : Int), r)
  | '+' :: r => (takeNumber r.length r).map fun (n, r) => ((n : Int), r)
  | r => (takeNumber 4 r).map fun (n, r) => ((n : Int), r)

/-- A hyphen, white space around it. -/
def takeHyphen (cs : List Char) : Option (List Char) :=
  match Text.trimLeft cs with
  | '-' :: r => some (Text.trimLeft r)
  | _ => none

/-- The day a text names. -/
def ofText? (s : String) : Option Date := do
  let (year, r) ← takeYear s.toList
  let (month, r) ← takeNumber 2 (← takeHyphen r)
  let (day, r) ← takeNumber 2 (← takeHyphen r)
  if (Text.trimLeft r).isEmpty then ofParts? year month day else none

/-! ## Writing -/

/-- A number with zeros in front up to the given width. -/
def padded (width n : Nat) : List Char :=
  let ds := Nat.toDigits 10 n
  List.replicate (width - ds.length) '0' ++ ds

/-- The characters of a date. Years outside four digits carry a sign. -/
def chars (d : Date) : List Char :=
  let year :=
    if 0 ≤ d.year ∧ d.year ≤ 9999 then padded 4 d.year.natAbs
    else (if d.year < 0 then '-' else '+') :: padded 4 d.year.natAbs
  year ++ '-' :: padded 2 d.month ++ '-' :: padded 2 d.day

/-- The text of a date. -/
def text (d : Date) : String := String.ofList d.chars

end Date

end SharedLedger
