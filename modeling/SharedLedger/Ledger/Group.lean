import SharedLedger.Naming
import SharedLedger.Operation

/-!
# Groups and their members

Whoever creates a group becomes its first member. All that changes a group's
set of members locks the group, so members never change under somebody who
relies on them. A member who paid for something cannot be replaced; such a
group adds, renames and unlinks members one by one.
-/

namespace SharedLedger

/-- A new group and the member its creator became. -/
structure GroupCreated where
  group : Group
  creator : Member
  deriving DecidableEq

/-- How many members went, and those that came. -/
structure MembersReplaced where
  deleted : Nat
  created : List Member
  deriving DecidableEq

namespace Group

/-! ## Inside a transaction -/

/-- Creates a group with the given account as its first member. -/
def creation (userId : Int) (draft : GroupDraft) : Plan GroupCreated := do
  let u ← Plan.user userId
  let g ← Plan.ask (.insertGroup draft.name)
  let m ← Plan.ask (.insertMember g.id ⟨draft.memberName.getD u.name, some u.id⟩)
  return ⟨g, m⟩

/-- Gives a group another name. -/
def nameChange (groupId : Int) (name : String) : Plan Group := do
  Plan.hold .groups groupId
  let g ← Plan.group groupId
  Plan.ask (.updateGroup { g with name })

/-- Deletes a group and everything in it. -/
def deletion (groupId : Int) : Plan Unit := do
  Plan.hold .groups groupId
  Plan.ask (.deleteGroup groupId)

/-- Inserts members one after the other. -/
def insertMembers (groupId : Int) : List MemberDraft → Plan (List Member)
  | [] => pure []
  | m :: ms => do
    let created ← Plan.ask (.insertMember groupId m)
    return created :: (← insertMembers groupId ms)

/-- Adds a member. -/
def addition (groupId : Int) (m : MemberDraft) : Plan Member := do
  Plan.hold .groups groupId
  Plan.ask (.insertMember groupId m)

/-- Replaces all members. -/
def replacement (groupId : Int) (ms : List MemberDraft) : Plan MembersReplaced := do
  Plan.hold .groups groupId
  let deleted ← Plan.ask (.deleteMembers groupId)
  return ⟨deleted, ← insertMembers groupId ms⟩

/-- The member of an id as it is once its group is locked. -/
def lockedMember (memberId : Int) : Plan Member := do
  let m ← Plan.member memberId
  Plan.hold .groups m.groupId
  Plan.member memberId

/-- Renames a member or links it to an account. -/
def memberChange (memberId : Int) (u : MemberUpdate) : Plan Member := do
  let m ← lockedMember memberId
  Plan.ask (.updateMember { m with name := u.name.getD m.name, userId := u.userId <|> m.userId })

/-- Takes the account off a member. -/
def unlinking (memberId : Int) : Plan Member := do
  Plan.ask (.updateMember (← lockedMember memberId).unlinked)

/-- The groups an account is a member of. -/
def groupsOf : List Member → Plan (List Group)
  | [] => pure []
  | m :: ms => do
    match ← Plan.ask (.findGroup m.groupId) with
    | some g => return g :: (← groupsOf ms)
    | none => groupsOf ms

/-! ## Operations -/

/-- Checks a new group. -/
def checkDraft (draft : GroupDraft) : Except LedgerError Unit := do
  Naming.validateName "name" draft.name
  Naming.validateName? "member_name" draft.memberName

/-- Creates a group with the caller as its first member. -/
def create (caller : Int) (draft : GroupDraft) : Operation GroupCreated := do
  Operation.ofCheck (checkDraft draft)
  Operation.single (creation caller draft)

/-- The groups the caller is a member of. -/
def list (caller : Int) : Operation (List Group) :=
  .single do groupsOf (← Plan.ask (.listMemberships caller))

/-- Adds a member. -/
def addMember (groupId : Int) (m : MemberDraft) : Operation Member := do
  Operation.ofCheck (Naming.validateName "name" m.name)
  Operation.single (addition groupId m)

/-- Replaces all members. -/
def replaceMembers (groupId : Int) (ms : List MemberDraft) : Operation MembersReplaced := do
  Operation.ofCheck (Naming.validateMembers groupId ms)
  Operation.single (replacement groupId ms)

/-- Renames a member or links it to an account. -/
def updateMember (memberId : Int) (u : MemberUpdate) : Operation Member := do
  Operation.ofCheck (Naming.validateName? "name" u.name)
  Operation.single (memberChange memberId u)

end Group

end SharedLedger
