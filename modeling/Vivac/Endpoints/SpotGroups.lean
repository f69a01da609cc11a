import Vivac.Core.Region
import Vivac.Crud.SpotImage
import Vivac.Endpoints.Invites

/-!
# The group endpoints

`endpoints/spot_groups.py`. Every endpoint of one group looks the group up, then the caller, and
then whether the caller may read it, or is a member with the role that the endpoint asks for.
-/

set_option autoImplicit false

namespace Vivac

open Lib App

def memberNotFound : Exc := .app .spotGroupMemberNotFound "Member not found"

/-- `_GROUP_ROLE_RANK`. -/
def GroupRole.rank : GroupRole → ℕ
  | .viewer => 1
  | .contributor => 2
  | .editor => 3
  | .owner => 4

def GroupRole.value : GroupRole → String
  | .viewer => "viewer"
  | .contributor => "contributor"
  | .editor => "editor"
  | .owner => "owner"

structure SpotGroupDetail where
  uid : String
  name : String
  description : Option String
  visibility : GroupVisibility
  spotCount : ℕ
  myRole : Option GroupRole
  createdAt : Option Timestamp
  updatedAt : Option Timestamp

namespace SpotGroups

/-! ## Dependencies -/

/-- `_get_group_or_404`. -/
def findGroup (groupUid : String) : App SpotGroup := do
  match ← getGroupByUid groupUid with
  | some group => return group
  | none => .raise spotGroupNotFound

/-- The membership of a caller, who may be nobody. -/
def membershipOf (groupUid : String) : Option User → App (Option SpotGroupMember)
  | none => return none
  | some user => getMembership groupUid user.uid

/-- A group that is not PUBLIC is there for its members only. -/
def requireReadable (group : SpotGroup) (user : Option User) : App Unit :=
  if group.visibility == .isPublic then .ret ()
  else do
    match ← membershipOf group.uid user with
    | some _ => .ret ()
    | none => .raise spotGroupNotFound

/-- `_get_readable_group`, with the caller. -/
def readableGroup (groupUid : String) (credentials : Credentials) :
    App (SpotGroup × Option User) := do
  let group ← findGroup groupUid
  let user ← getCurrentUserOptional credentials
  requireReadable group user
  return (group, user)

/-- The caller among the members of a group. -/
def requireMember (group : SpotGroup) (user : User) : App SpotGroupMember := do
  match ← getMembership group.uid user.uid with
  | some membership => return membership
  | none => .raise spotGroupNotFound

/-- `_get_membership_or_404`. -/
def membershipOr404 (groupUid : String) (credentials : Credentials) :
    App (SpotGroup × SpotGroupMember) := do
  let group ← findGroup groupUid
  let user ← getCurrentUser credentials
  let membership ← requireMember group user
  return (group, membership)

/-- `require_group_role`. -/
def requireGroupRole (minRole : GroupRole) (groupUid : String) (credentials : Credentials) :
    App (SpotGroup × SpotGroupMember) := do
  let (group, membership) ← membershipOr404 groupUid credentials
  if membership.role.rank < minRole.rank then .raise (roleRequired minRole.value)
  else return (group, membership)

/-! ## Endpoints -/

/-- `_to_detail`. -/
def toDetail (group : SpotGroup) (myRole : Option GroupRole) : App SpotGroupDetail := do
  let spotCount ← countGroupSpots group.uid
  return {
    uid := group.uid
    name := group.name
    description := group.description
    visibility := group.visibility
    spotCount := spotCount
    myRole := myRole
    createdAt := group.createdAt
    updatedAt := group.updatedAt }

/-- The item of a spot in a group. -/
def toSpotItem (be : Backend) (thumbnails : List (String × SpotImage)) (spot : Spot)
    (item : SpotGroupSpot) : SpotGroupSpotItem where
  uid := spot.uid
  title := spot.title
  trustTier := spot.trustTier
  thumbnailUrl := (thumbnails.lookup spot.uid).map fun image =>
    be.resolveUrl image.s3Key image.isPublic
  regionShort := abbreviateSido spot.regionProvince
  category := spot.category
  tagline := spot.tagline
  amenities := spot.amenities
  addedByUid := item.addedByUid
  addedAt := item.createdAt

section

variable (cfg : Settings) (be : Backend) (now : Timestamp)

/-- `create_group`; `groupUid` is the fresh uid of its row. -/
def createGroup (groupUid : String) (credentials : Credentials) (name : String)
    (description : Option String) (visibility : GroupVisibility) : App SpotGroupDetail := do
  let user ← getCurrentUser credentials
  let group ← Vivac.createGroup now groupUid user.uid name description visibility
  toDetail group (some .owner)

/-- `get_group`. -/
def getGroup (groupUid : String) (credentials : Credentials) : App SpotGroupDetail := do
  let (group, user) ← readableGroup groupUid credentials
  let membership ← membershipOf group.uid user
  toDetail group (membership.map SpotGroupMember.role)

/-- `update_group`. -/
def updateGroup (groupUid : String) (credentials : Credentials) (data : List GroupAttr) :
    App SpotGroupDetail := do
  let (group, membership) ← requireGroupRole .editor groupUid credentials
  let group ← Vivac.updateGroup now group data
  toDetail group (some membership.role)

/-- `delete_group`. -/
def deleteGroup (groupUid : String) (credentials : Credentials) : App Unit := do
  let (group, _) ← requireGroupRole .owner groupUid credentials
  Vivac.deleteGroup group

/-- `list_group_spots`. -/
def listGroupSpots (groupUid : String) (credentials : Credentials) (offset limit : ℕ) :
    App (List SpotGroupSpotItem) := do
  let (group, _) ← readableGroup groupUid credentials
  let rows ← Vivac.listGroupSpots group.uid offset limit
  let thumbnails ← getThumbnailsBySpots (rows.map fun r => r.1.uid)
  return rows.map fun r => toSpotItem be thumbnails r.1 r.2

/-- A spot that the public may see. -/
def findPublishedSpot (spotUid : String) : App Spot := do
  match ← getSpotByUid cfg spotUid true with
  | some spot => return spot
  | none => .raise (.app .spotNotFound "Spot not found")

/-- `add_group_spot`. -/
def addGroupSpot (groupUid : String) (credentials : Credentials) (spotUid : String) :
    App SpotGroupSpotItem := do
  let (group, membership) ← requireGroupRole .contributor groupUid credentials
  let spot ← findPublishedSpot cfg spotUid
  let item ← addSpot now group.uid spot.uid membership.userUid
  let thumbnails ← getThumbnailsBySpots [spot.uid]
  return toSpotItem be thumbnails spot item

/-- `remove_group_spot`. -/
def removeGroupSpot (groupUid : String) (credentials : Credentials) (spotUid : String) :
    App Unit := do
  let (group, _) ← requireGroupRole .editor groupUid credentials
  let removed ← removeSpot group.uid spotUid
  if removed then .ret () else .raise (.app .spotNotFound "Spot not in this group")

/-- `list_group_members`. -/
def listGroupMembers (groupUid : String) (credentials : Credentials) :
    App (List SpotGroupMember) := do
  let (group, _) ← requireGroupRole .viewer groupUid credentials
  listMembers group.uid

/-- `invite_group_member`. -/
def inviteGroupMember (groupUid : String) (credentials : Credentials) (userUid : String)
    (role : GroupRole) : App SpotGroupMember := do
  let (group, membership) ← requireGroupRole .owner groupUid credentials
  if group.visibility == .isPrivate then .raise spotGroupInviteNotAllowed
  else do
    match ← getUserById userUid with
    | none => .raise (.app .userNotFound "User not found")
    | some target => addMember now group.uid target.uid (some role) membership.userUid

/-- A member of the group. Of the caller's own membership the session has a copy already, which the
second `SELECT` does not refresh. -/
def findMember (group : SpotGroup) (caller : SpotGroupMember) (userUid : String) :
    App SpotGroupMember := do
  match ← getMembership group.uid userUid with
  | some target => return if target.userUid = caller.userUid then caller else target
  | none => .raise memberNotFound

/-- `update_group_member_role`. -/
def updateGroupMemberRole (groupUid : String) (credentials : Credentials) (userUid : String)
    (role : GroupRole) : App SpotGroupMember := do
  let (group, membership) ← requireGroupRole .owner groupUid credentials
  let target ← findMember group membership userUid
  updateMemberRole target role

/-- `remove_group_member`. -/
def removeGroupMember (groupUid : String) (credentials : Credentials) (userUid : String) :
    App Unit := do
  let (group, membership) ← requireGroupRole .owner groupUid credentials
  let target ← findMember group membership userUid
  removeMember target

end

end SpotGroups

/-! ## The console -/

structure SpotGroupAdminDetail where
  uid : String
  name : String
  description : Option String
  visibility : GroupVisibility
  memberCount : ℕ
  spotCount : ℕ
  createdAt : Option Timestamp
  updatedAt : Option Timestamp

namespace InternalSpotGroups

/-- `_to_admin_detail` of `endpoints/internal_spot_groups.py`. -/
def toAdminDetail (group : SpotGroup) : App SpotGroupAdminDetail := do
  let memberCount ← countGroupMembers group.uid
  let spotCount ← countGroupSpots group.uid
  return {
    uid := group.uid
    name := group.name
    description := group.description
    visibility := group.visibility
    memberCount := memberCount
    spotCount := spotCount
    createdAt := group.createdAt
    updatedAt := group.updatedAt }

/-- `get_group`. -/
def getGroup (groupUid : String) : App SpotGroupAdminDetail := do
  let group ← SpotGroups.findGroup groupUid
  toAdminDetail group

/-- `update_group`; the router asks for a staff user. -/
def updateGroup (now : Timestamp) (credentials : Credentials) (groupUid : String)
    (data : List GroupAttr) : App SpotGroupAdminDetail := do
  let _ ← requireStaff credentials
  let group ← SpotGroups.findGroup groupUid
  let group ← Vivac.updateGroup now group data
  toAdminDetail group

end InternalSpotGroups

end Vivac
