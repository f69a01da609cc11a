import Vivac.Endpoints.Auth

/-!
# The invite endpoints

`endpoints/invites.py`. A group invite is created by an owner of a group that is not PRIVATE, and
accepted by any user who has its link.
-/

set_option autoImplicit false

namespace Vivac

open Lib App

def spotGroupNotFound : Exc := .app .spotGroupNotFound "Group not found"

/-- The refusal of new members of a PRIVATE group. -/
def spotGroupInviteNotAllowed : Exc :=
  .app .spotGroupInviteNotAllowed
    "PRIVATE 그룹은 멤버를 초대할 수 없습니다. visibility를 먼저 변경하세요."

def inviteNotFound : Exc := .app .inviteNotFound "Invite not found"

/-- `InviteCreate`: a group and a role, or neither. -/
structure InviteCreate where
  groupUid : Option String := none
  groupRole : Option GroupRole := none
  paired : groupUid.isSome = groupRole.isSome := by rfl

structure InvitePreview where
  inviterNickname : String
  groupName : Option String
  status : InviteStatus

namespace Invites

section

variable (now : Timestamp)

/-- The caller may invite into the group. -/
def checkInviter (user : User) (groupUid : String) : App Unit := do
  match ← getGroupByUid groupUid with
  | none => .raise spotGroupNotFound
  | some group =>
    if group.visibility == .isPrivate then .raise spotGroupInviteNotAllowed
    else do
      match ← getMembership group.uid user.uid with
      | none => .raise spotGroupNotFound
      | some membership =>
        whenever (membership.role != .owner)
          (.raise (.app .forbidden "owner 권한이 필요합니다"))

/-- The limit of `create_invite`. -/
def createLimit : LimitScope := ⟨"invite_create", 20, 3600⟩

/-- `create_invite`; `uid` is the fresh uid of its row. -/
def createInvite (uid : String) (peer : Peer) (credentials : Credentials)
    (payload : InviteCreate) : App Invite :=
  withRateLimit createLimit peer credentials do
    let user ← getCurrentUser credentials
    match payload.groupUid with
    | some groupUid => checkInviter user groupUid
    | none => .ret ()
    Vivac.createInvite now uid user.uid payload.groupUid payload.groupRole

/-- The group an invite names; the empty text names none. -/
def invitedGroup (invite : Invite) : App (Option SpotGroup) :=
  match invite.groupUid with
  | none => .ret none
  | some groupUid => if groupUid = "" then .ret none else getGroupByUid groupUid

/-- `preview_invite`, for anybody. -/
def previewInvite (uid : String) : App InvitePreview := do
  match ← getInviteByUid uid with
  | none => .raise inviteNotFound
  | some invite => do
    let inviter ← getUserById invite.inviterUid
    let group ← invitedGroup invite
    return {
      inviterNickname := (inviter.map User.nickname).getD "알 수 없음"
      groupName := group.map SpotGroup.name
      status := invite.status }

/-- `accept_invite`, for a user who has an account. -/
def acceptInvite (credentials : Credentials) (uid : String) : App Invite := do
  let user ← getCurrentUser credentials
  match ← getInviteByUid uid with
  | none => .raise inviteNotFound
  | some invite => Vivac.acceptInvite now invite user.uid

end

end Invites

end Vivac
