import SharedLedger.Text.Printable

/-!
# Quoted text

Text inside a report stands in double quotes. Quotes and backslashes are
escaped with a backslash, line breaks, tabs and the null character by a
letter or digit, and every other character that has no glyph of its own by
its number.
-/

namespace SharedLedger

namespace Text

/-- A character inside quotes. -/
def escaped (c : Char) : List Char :=
  if c = '"' then ['\\', '"']
  else if c = '\\' then ['\\', '\\']
  else if c = '\n' then ['\\', 'n']
  else if c = '\r' then ['\\', 'r']
  else if c = '\t' then ['\\', 't']
  else if c = '\x00' then ['\\', '0']
  else if isPrintable c then [c]
  else '\\' :: 'u' :: '\x7b' :: Nat.toDigits 16 c.toNat ++ ['\x7d']

/-- A text in quotes. -/
def quoted (s : String) : String :=
  String.ofList ('"' :: s.toList.flatMap escaped ++ ['"'])

end Text

end SharedLedger
