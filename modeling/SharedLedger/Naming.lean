import SharedLedger.Error
import SharedLedger.Text.Blank

/-!
# Names, addresses and notes

What the texts of a request have to be like: names are not blank, not too
long and free of control characters; e-mail addresses have the least an
address needs; passwords are not empty; notes and categories are not too
long. Lengths of names and notes count characters, those of addresses count
octets.
-/

namespace SharedLedger

namespace Naming

/-- The most characters a name may have. -/
def maxName : Nat := 100

/-- The most characters a category or a note may have. -/
def maxNote : Nat := 1000

/-- Whether a text is empty or nothing but white space. -/
def isBlank (s : String) : Bool := s.toList.all Text.isBlank

/-- Checks a name given in the named field. -/
def validateName (field value : String) : Except LedgerError Unit :=
  if isBlank value then
    .error (.field field ("Invalid " ++ field) (field ++ " cannot be empty"))
  else if maxName < value.length then
    .error (.field field (field ++ " Too Long")
      (field ++ " cannot exceed " ++ toString maxName ++ " characters"))
  else if value.toList.any Text.isControl then
    .error (.field field ("Invalid " ++ field) (field ++ " contains invalid characters"))
  else .ok ()

/-- Checks a name that may be absent. -/
def validateName? (field : String) (value : Option String) : Except LedgerError Unit :=
  match value with
  | some v => validateName field v
  | none => .ok ()

/-- Checks an e-mail address. -/
def validateEmail (email : String) : Except LedgerError Unit :=
  if email.isEmpty then .error .missingEmail
  else if !email.toList.contains '@' || !email.toList.contains '.' || email.utf8ByteSize < 5
      || 254 < email.utf8ByteSize then
    .error (.invalidEmail email)
  else .ok ()

/-- Checks a password. -/
def validatePassword (password : String) : Except LedgerError Unit :=
  if password.isEmpty then
    .error (.field "password" "Invalid password" "Password cannot be empty")
  else .ok ()

/-- Checks a category or a note that may be absent. -/
def validateNote (field : String) (value : Option String) : Except LedgerError Unit :=
  match value with
  | some v =>
    if maxNote < v.length then
      .error (.field field (field ++ " Too Long")
        (field ++ " cannot exceed " ++ toString maxNote ++ " characters"))
    else .ok ()
  | none => .ok ()

/-- Checks proposed members one by one; `seen` holds the accounts of those in
front. -/
def checkMembers (groupId : Int) (seen : List Int) : List MemberDraft → Except LedgerError Unit
  | [] => .ok ()
  | m :: ms => do
    validateName "name" m.name
    match m.userId with
    | none => checkMembers groupId seen ms
    | some u =>
      if seen.contains u then throw (.alreadyMember u groupId)
      else checkMembers groupId (u :: seen) ms

/-- Checks the members a group is to consist of: there is at least one, each
has a proper name and no account occurs twice. -/
def validateMembers (groupId : Int) (members : List MemberDraft) : Except LedgerError Unit :=
  if members.isEmpty then
    .error (.field "members" "Invalid members" "a group needs at least one member")
  else checkMembers groupId [] members

end Naming

end SharedLedger
