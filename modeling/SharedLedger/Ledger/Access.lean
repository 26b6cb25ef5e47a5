import SharedLedger.Operation

/-!
# Access

What belongs to a group is for its members. The group a thing belongs to is
looked up first, so that things which do not exist are reported as such; then
the caller has to be linked to a member of that group. Where membership
cannot be found out the caller is turned away.
-/

namespace SharedLedger

/-- Something that belongs to a group. -/
inductive Resource where
  | group (id : Int)
  | member (id : Int)
  | expense (id : Int)
  | share (id : Int)
  deriving DecidableEq, Repr

namespace Access

/-- The group a thing belongs to. -/
def owningGroup : Resource → Plan Int
  | .group id => do return (← Plan.group id).id
  | .member id => do return (← Plan.member id).groupId
  | .expense id => do return (← Plan.expense id).groupId
  | .share id => do
    let s ← Plan.share id
    return (← Plan.expense s.expenseId).groupId

/-- Whether an account is linked to a member of a group. -/
def isMember (groupId userId : Int) : Plan Bool := do
  return (← Plan.ask (.listMembers groupId)).any fun m => m.isLinkedTo userId

/-- What the answer to `isMember` means for the caller. -/
def verdict : Except LedgerError Bool → Except LedgerError Unit
  | .ok true => .ok ()
  | .ok false => .error .forbidden
  | .error .cancelled => .error .cancelled
  | .error _ => .error .membershipUnknown

/-- Turns away who is not a member of the group. -/
def requireMember (groupId userId : Int) : Operation Unit :=
  .transaction (isMember groupId userId) fun r => .ofCheck (verdict r)

/-- Turns away who is not a member of the group a thing belongs to. -/
def authorize (caller : Int) (resource : Resource) : Operation Unit := do
  requireMember (← Operation.single (owningGroup resource)) caller

theorem authorize_bind {α : Type} (caller : Int) (resource : Resource)
    (f : Unit → Operation α) :
    (authorize caller resource).bind f =
      (Operation.single (owningGroup resource)).bind fun g => (requireMember g caller).bind f :=
  Operation.bind_assoc ..

end Access

end SharedLedger
