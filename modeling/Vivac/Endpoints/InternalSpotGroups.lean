import Vivac.Endpoints.InternalSpots
import Vivac.Endpoints.SpotGroups

/-!
# The console's groups and members

The writing endpoints of `internal_spot_groups.py` beside the update of a group. The router asks for
a staff user; what adds, changes or removes a member or deletes a group asks for a MANAGER.
-/

set_option autoImplicit false

namespace Vivac

open Lib App

/-- A member as the console shows it. -/
structure SpotGroupAdminMemberOut where
  userUid : String
  nickname : String
  email : String
  role : GroupRole
  invitedByUid : Option String
  createdAt : Option Timestamp

namespace InternalSpotGroups

def toAdminMember (member : SpotGroupMember) (user : User) : SpotGroupAdminMemberOut where
  userUid := member.userUid
  nickname := user.nickname
  email := user.email
  role := member.role
  invitedByUid := member.invitedByUid
  createdAt := member.createdAt

/-- A user that has to be there. -/
def findUser (userUid : String) : App User := do
  match ← getUserById userUid with
  | some user => return user
  | none => .raise (.app .userNotFound "User not found")

/-- A member of the group, whoever asks. -/
def findMember (group : SpotGroup) (userUid : String) : App SpotGroupMember := do
  match ← getMembership group.uid userUid with
  | some target => return target
  | none => .raise memberNotFound

/-- A spot that is not deleted, whatever its status. -/
def findLiveSpot (cfg : Settings) (spotUid : String) : App Spot := do
  match ← getSpotByUid cfg spotUid with
  | some spot =>
    if spot.deletedAt.isNone then return spot
    else .raise (.app .spotNotFound "Spot not found")
  | none => .raise (.app .spotNotFound "Spot not found")

section

variable (now : Timestamp)

/-- `create_group`; the staff user becomes its owner. -/
def createGroup (groupUid : String) (credentials : Credentials) (name : String)
    (description : Option String) (visibility : GroupVisibility) : App SpotGroupAdminDetail := do
  let staff ← requireStaff credentials
  let group ← Vivac.createGroup now groupUid staff.uid name description visibility
  toAdminDetail group

/-- `delete_group`. -/
def deleteGroup (credentials : Credentials) (groupUid : String) : App Unit := do
  let _ ← InternalSpots.requireStaffRole .manager credentials
  let group ← SpotGroups.findGroup groupUid
  Vivac.deleteGroup group

/-- `add_group_member`; a PRIVATE group is no obstacle. -/
def addGroupMember (credentials : Credentials) (groupUid userUid : String) (role : GroupRole) :
    App SpotGroupAdminMemberOut := do
  let staff ← InternalSpots.requireStaffRole .manager credentials
  let group ← SpotGroups.findGroup groupUid
  let target ← findUser userUid
  let member ← addMember now group.uid target.uid (some role) staff.uid
  return toAdminMember member target

/-- `update_group_member_role`. -/
def updateGroupMemberRole (credentials : Credentials) (groupUid userUid : String)
    (role : GroupRole) : App SpotGroupAdminMemberOut := do
  let _ ← InternalSpots.requireStaffRole .manager credentials
  let group ← SpotGroups.findGroup groupUid
  let target ← findMember group userUid
  let member ← updateMemberRole target role
  let user ← findUser member.userUid
  return toAdminMember member user

/-- `remove_group_member`. -/
def removeGroupMember (credentials : Credentials) (groupUid userUid : String) : App Unit := do
  let _ ← InternalSpots.requireStaffRole .manager credentials
  let group ← SpotGroups.findGroup groupUid
  let target ← findMember group userUid
  removeMember target

/-- `add_group_spot`. -/
def addGroupSpot (cfg : Settings) (be : Backend) (credentials : Credentials)
    (groupUid spotUid : String) : App SpotGroupSpotItem := do
  let staff ← requireStaff credentials
  let group ← SpotGroups.findGroup groupUid
  let spot ← findLiveSpot cfg spotUid
  let item ← addSpot now group.uid spot.uid staff.uid
  let thumbnails ← getThumbnailsBySpots [spot.uid]
  return SpotGroups.toSpotItem be thumbnails spot item

/-- `remove_group_spot`. -/
def removeGroupSpot (credentials : Credentials) (groupUid spotUid : String) : App Unit := do
  let _ ← requireStaff credentials
  let group ← SpotGroups.findGroup groupUid
  let removed ← removeSpot group.uid spotUid
  if removed then .ret () else .raise (.app .spotNotFound "Spot not in this group")

end

end InternalSpotGroups

end Vivac
