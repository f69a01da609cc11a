import Vivac.Crud.AdminLists
import Vivac.Endpoints.InternalSpotGroups

/-!
# The lists of groups and members

`list_my_groups` of `endpoints/spot_groups.py` and the lists of `endpoints/internal_spot_groups.py`.
In the app a user sees the groups it is a member of; in the console the staff see them all.
-/

set_option autoImplicit false

namespace Vivac

open Lib App

structure SpotGroupListItem where
  uid : String
  name : String
  visibility : GroupVisibility
  myRole : GroupRole
  spotCount : ℕ
  updatedAt : Option Timestamp

structure SpotGroupAdminListItem where
  uid : String
  name : String
  visibility : GroupVisibility
  memberCount : ℕ
  spotCount : ℕ
  createdAt : Option Timestamp
  updatedAt : Option Timestamp

/-- The order of the members of a group: as they came. -/
def memberAdminOrder : RowOrder (SpotGroupMember × User) := byTime.on fun row => row.1.createdAt

/-- `list_members_admin`; a member without a user is not joined. -/
def listMembersAdmin (found : memberAdminOrder.Arrangement) (groupUid : String) :
    App (List (SpotGroupMember × User)) :=
  select fun d => found.run ((d.members.select fun m => m.groupUid == groupUid).filterMap fun m =>
    (d.users.find? m.userUid).map fun u => (m, u))

namespace SpotGroups

/-- `list_my_groups`. -/
def listMyGroups (found : forUserOrder.Arrangement) (credentials : Credentials)
    (offset limit : ℕ) : App (List SpotGroupListItem) := do
  let user ← getCurrentUser credentials
  let rows ← listGroupsForUser found user.uid offset limit
  return rows.map fun (group, role, spotCount) => {
    uid := group.uid
    name := group.name
    visibility := group.visibility
    myRole := role
    spotCount := spotCount
    updatedAt := group.updatedAt }

end SpotGroups

namespace InternalSpotGroups

/-- The item of a group in the list of the console. -/
def toListItem : SpotGroup × ℕ × ℕ → SpotGroupAdminListItem
  | (group, memberCount, spotCount) => {
      uid := group.uid
      name := group.name
      visibility := group.visibility
      memberCount := memberCount
      spotCount := spotCount
      createdAt := group.createdAt
      updatedAt := group.updatedAt }

/-- `list_groups`, with `X-Total-Count`; `order` is in lower case. -/
def listGroups (texts : TextRules) (sort order : String)
    (found : (SpotGroup.adminOrder texts sort order).Arrangement) (credentials : Credentials)
    (start stop : ℕ) (nameLike visibility userUid : Option String) :
    App (List SpotGroupAdminListItem × ℕ) := do
  let _ ← requireStaff credentials
  if ((SpotGroup.adminSortable texts).lookup sort).isNone then
    .raise (.app .validationError ("Not sortable: " ++ sort))
  else do
    let (items, total) ←
      listGroupsAdmin texts sort order found start (stop - start) nameLike visibility userUid
    return (items.map toListItem, total)

/-- `list_group_members`. -/
def listGroupMembers (found : memberAdminOrder.Arrangement) (credentials : Credentials)
    (groupUid : String) : App (List SpotGroupAdminMemberOut) := do
  let _ ← requireStaff credentials
  let group ← SpotGroups.findGroup groupUid
  let rows ← listMembersAdmin found group.uid
  return rows.map fun (member, user) => toAdminMember member user

/-- `list_group_spots`. -/
def listGroupSpots (be : Backend) (credentials : Credentials) (groupUid : String)
    (offset limit : ℕ) : App (List SpotGroupSpotItem) := do
  let _ ← requireStaff credentials
  let group ← SpotGroups.findGroup groupUid
  let rows ← Vivac.listGroupSpots group.uid offset limit
  let thumbnails ← getThumbnailsBySpots (rows.map fun r => r.1.uid)
  return rows.map fun r => SpotGroups.toSpotItem be thumbnails r.1 r.2

end InternalSpotGroups

end Vivac
