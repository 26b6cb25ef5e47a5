/-!
# Addresses

An address is a path with perhaps a query behind it, or it names a host, with
or without a scheme. With a scheme, a path and a query may follow the host, and
an empty path stands for `/`. Without one there is nothing but the host, and so
no path to serve. A fragment is passed over unread. `Address.path?` tells the
path of an address that is well formed.
-/

namespace SharedLedger

namespace Web

namespace Address

/-- The most octets an address may have. -/
def maxSize : Nat := 65534

/-! ## Path and query -/

/-- Whether a character may stand in a path. -/
def isPathChar (c : Char) : Bool :=
  0x20 < c.toNat && c ≠ '\x7f' && !"#<>?\x60".toList.contains c

/-- Whether a character may stand in a query. -/
def isQueryChar (c : Char) : Bool :=
  0x20 < c.toNat && c ≠ '\x7f' && !"\"#<>".toList.contains c

/-- The path in front of a query and a fragment. -/
def pathBefore? (cs : List Char) : Option (List Char) :=
  let cs := cs.takeWhile (· ≠ '#')
  let path := cs.takeWhile (· ≠ '?')
  let query := (cs.dropWhile (· ≠ '?')).drop 1
  if path.all isPathChar && query.all isQueryChar then some path else none

/-! ## Scheme and host -/

/-- Whether a character may stand in a scheme. -/
def isSchemeChar (c : Char) : Bool := c.isAlphanum || "+-.~".toList.contains c

/-- What follows the scheme and its mark. A scheme may be empty. -/
def afterScheme? (cs : List Char) : Option (List Char) :=
  match cs.dropWhile isSchemeChar with
  | ':' :: '/' :: '/' :: rest => if (cs.takeWhile isSchemeChar).length ≤ 64 then some rest else none
  | _ => none

/-- Whether a character ends a host. -/
def endsHost (c : Char) : Bool := c = '/' || c = '?' || c = '#'

/-- Whether a character may stand anywhere in a host. -/
def isHostChar (c : Char) : Bool := c.isAlphanum || "!$&'()*+,-.;=_~".toList.contains c

/-- What has been seen of a host. Colons and percent signs are those behind
the last at sign and the last closing bracket: what stands before either is a
user or a numeric address. -/
structure HostSeen where
  colons : Nat
  escaped : Bool
  opened : Bool
  closed : Bool

/-- One more character has been seen, if it may stand there. -/
def HostSeen.next? (s : HostSeen) (c : Char) : Option HostSeen :=
  match c with
  | ':' => if s.colons < 8 then some { s with colons := s.colons + 1 } else none
  | '[' => if s.escaped || s.opened then none else some { s with opened := true }
  | ']' =>
    if s.opened && !s.closed then some { s with colons := 0, escaped := false, closed := true }
    else none
  | '@' => some { s with colons := 0, escaped := false }
  | '%' => some { s with escaped := true }
  | c => if isHostChar c then some s else none

/-- Whether a text is a host, perhaps with a user in front and a port behind. -/
def isHost (cs : List Char) : Bool :=
  match cs.foldlM HostSeen.next? ⟨0, false, false, false⟩ with
  | none => false
  | some s =>
    !cs.isEmpty && s.opened == s.closed && s.colons ≤ 1 && !s.escaped && cs.getLast? != some '@'

/-- The path of an address. -/
def path? (address : String) : Option (List Char) :=
  let cs := address.toList
  if maxSize < address.utf8ByteSize then none
  else if cs.head? = some '/' then pathBefore? cs
  else match afterScheme? cs with
    | none => if isHost cs then some [] else none
    | some rest =>
      if isHost (rest.takeWhile (!endsHost ·)) then
        (pathBefore? (rest.dropWhile (!endsHost ·))).map fun path =>
          if path.isEmpty then ['/'] else path
      else none

end Address

end Web

end SharedLedger
