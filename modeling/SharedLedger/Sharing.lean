import SharedLedger.Money

/-!
# Sharing out an expense

The rules a set of shares has to meet before it is written. Each share is
owed by a member of the group or by nobody in particular, its fraction lies
between zero and one and its amount is above zero; the first share that
breaks a rule is reported. Then the fractions have to sum to exactly one, and
the amounts to that of the expense within one cent.
-/

namespace SharedLedger

/-- What is wrong with a single share. -/
inductive ShareFault where
  | notAMember (memberId groupId : Int)
  | fractionOutside (fraction : Decimal)
  | amountNotPositive (amount : Decimal)
  deriving DecidableEq

/-- The words a fault is reported in. -/
def ShareFault.reason : ShareFault → String
  | notAMember m g =>
    "split_user " ++ toString m ++ " is not a member of group " ++ toString g
  | fractionOutside a => "split_percent " ++ a.text ++ " is outside [0, 1]"
  | amountNotPositive a => "split_amount " ++ a.text ++ " must be greater than 0"

namespace Sharing

/-- Whether there is a member row with the given id in the group. -/
def isMemberRow (members : List Member) (groupId memberId : Int) : Bool :=
  members.any fun m => m.id == memberId && m.groupId == groupId

/-- The first rule a share breaks. -/
def fault? (groupId : Int) (members : List Member) (s : ShareDraft) : Option ShareFault :=
  match s.owedBy.filter fun m => !isMemberRow members groupId m with
  | some m => some (.notAMember m groupId)
  | none =>
    if !Money.isRatio s.fraction then some (.fractionOutside s.fraction)
    else if s.amount.atMost Decimal.zero then some (.amountNotPositive s.amount)
    else none

/-- The position and the fault of the first share that breaks a rule,
positions counted from `start`. -/
def firstFault? (groupId : Int) (members : List Member) (start : Nat) :
    List ShareDraft → Option (Nat × ShareFault)
  | [] => none
  | s :: ss =>
    match fault? groupId members s with
    | some f => some (start, f)
    | none => firstFault? groupId members (start + 1) ss

/-- Checks the shares proposed for an expense of the given group and amount. -/
def validate (groupId : Int) (amount : Decimal) (members : List Member) (shares : List ShareDraft) :
    Except Failure Unit := do
  if let some (i, f) := firstFault? groupId members 0 shares then
    throw (.refused (.invalidShare i f.reason))
  let fractions ← Failure.ofSum (Decimal.total (shares.map (·.fraction)))
  if !fractions.sameAs Decimal.one then throw (.refused (.fractionTotal fractions))
  let amounts ← Failure.ofSum (Decimal.total (shares.map (·.amount)))
  if !(← Failure.ofSum (Money.withinOneCent amounts amount)) then
    throw (.refused (.amountTotal amounts amount))

end Sharing

end SharedLedger
