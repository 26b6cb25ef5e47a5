import SharedLedger.Error

/-!
# Passwords

A password is recognised by its `key`: its octets and a zero behind them,
repeated until 72 octets are filled and cut off there. Two passwords of one
key are one password. Hashing has a cost, which has to be within bounds.
-/

namespace SharedLedger

namespace Password

/-- The octets a password is recognised by. -/
def key (password : String) : List UInt8 :=
  let cycle := password.toUTF8.toList ++ [0]
  (List.range 72).map fun i => cycle.getD (i % cycle.length) 0

/-- Turns a password into what is kept of it. -/
def hash (password : String) (cost : Nat) : Except LedgerError Credential :=
  if 4 ≤ cost ∧ cost ≤ 31 then .ok (.hashed (key password))
  else .error (.internal ("Password hashing error: Cost needs to be between 4 and 31, got "
    ++ toString cost))

/-- Whether a password is the one that was kept. -/
def verify (password : String) : Credential → Except LedgerError Bool
  | .hashed k => .ok (key password == k)
  | .opaqueText s => .error (.internal ("Password verification error: Invalid hash: " ++ s))

end Password

end SharedLedger
