import Vivac.Crud.SpotGroup
import Vivac.Crud.User

/-!
# Invites

`crud/invite.py`: an invite is consumed by a user who opens its link, or by a signup.
-/

set_option autoImplicit false

namespace Vivac

open Lib App

/-- How long a group invite is valid. -/
def groupInviteTtl : ℤ := daysMicros 14

/-! ## Statements -/

/-- `INSERT INTO invites`. -/
def insertInviteRow (i : Invite) : Statement Unit :=
  fun _ d =>
    if (d.invites.find? i.uid).isSome then .error (integrityError "invites_pkey")
    else if (d.users.find? i.inviterUid).isNone ||
        i.groupUid.any fun g => (d.groups.find? g).isNone then
      .error (integrityError "foreign key constraint")
    else .ok ⟨(), fun d => { d with invites := d.invites.insert i }, [.invite i.uid],
      [.invite i.uid]⟩

/-- Replace the invite `uid` by its new version. -/
def rewriteInvite (uid : String) (f : Rewrite Invite.uid) (d : Db) : Db :=
  { d with invites := d.invites.rewrite (fun i => i.uid == uid) f }

/-- `UPDATE invites SET .. WHERE uid = ..`; answers whether a row matched. -/
def updateInviteRow (uid : String) (f : Rewrite Invite.uid) : Statement Bool :=
  fun _ d =>
    if (d.invites.find? uid).isSome then
      .ok ⟨true, rewriteInvite uid f, [.invite uid], [.invite uid]⟩
    else .ok ⟨false, id, [], []⟩

/-! ## Operations -/

section Operations

variable (now : Timestamp)

def getInviteByUid (uid : String) : App (Option Invite) := select fun d => d.invites.find? uid

/-- `session.refresh(invite)`. -/
def refreshInvite (uid : String) : App Invite := do
  match ← getInviteByUid uid with
  | some i => return i
  | none => .raise (.database "InvalidRequestError" "Could not refresh instance")

/-- A new invite under the fresh `uid`. -/
def createInvite (uid inviterUid : String) (groupUid : Option String)
    (groupRole : Option GroupRole) : App Invite := do
  execute (insertInviteRow
    { uid := uid, inviterUid := inviterUid, groupUid := groupUid, groupRole := groupRole,
      createdAt := some now })
  commit
  refreshInvite uid

/-- The invite is older than its time to live. -/
def inviteExpired (invite : Invite) : Bool :=
  invite.createdAt.any fun createdAt => groupInviteTtl < now - createdAt

/-- `is_group_invite_still_valid`: the rights of the inviter at the moment of acceptance.
`autoflush` is what the session has pending, written with its next query. -/
def isGroupInviteStillValid (autoflush : App Unit) (invite : Invite) (groupUid : String) :
    App Bool := do
  if inviteExpired now invite then
    return false
  else do
    autoflush
    match ← getGroupByUid groupUid with
    | none => return false
    | some group =>
      if group.visibility == .isPrivate then
        return false
      else do
        let inviter ← getMembership groupUid invite.inviterUid
        return inviter.any fun m => m.role == .owner

/-- An accepted invite. -/
def setAccepted (userUid : String) : Rewrite Invite.uid :=
  .total (fun i => { i with
    status := .accepted
    acceptedByUid := some userUid
    acceptedAt := some now }) fun _ => rfl

/-- The flush of a loaded invite that has been accepted. -/
def flushAccepted (uid userUid : String) : App Unit := do
  let found ← execute (updateInviteRow uid (setAccepted now userUid))
  if found then .ret () else .raise staleDataError

/-- `accept_invite`: the membership is committed by `add_member`, the status after it. -/
def acceptInvite (invite : Invite) (userUid : String) : App Invite := do
  match invite.status, invite.groupUid with
  | .pending, some groupUid => do
    if ← isGroupInviteStillValid now (.ret ()) invite groupUid then do
      let _ ← addMember now groupUid userUid invite.groupRole invite.inviterUid
      flushAccepted now invite.uid userUid
      commit
      refreshInvite invite.uid
    else .raise (.app .inviteNotAcceptable "This invite is no longer valid")
  | _, _ => .raise (.app .inviteNotAcceptable "This invite can no longer be accepted")

/-- The flush of `new_user.referred_by_uid = invite.inviter_uid`. -/
def flushReferral (user : User) (inviterUid : String) : App Unit :=
  whenever (user.referredByUid != some inviterUid) (flushUser user.uid (setReferredBy inviterUid))

/-- `consume_invite_for_signup`: an invite that is not valid is ignored. -/
def consumeInviteForSignup (inviteUid : String) (newUser : User) : App Unit := do
  match ← getInviteByUid inviteUid with
  | none => .ret ()
  | some invite =>
    if invite.status != .pending then .ret ()
    else do
      let referral := flushReferral newUser invite.inviterUid
      match invite.groupUid with
      | none => do
        referral
        commit
      | some groupUid => do
        let valid ← isGroupInviteStillValid now referral invite groupUid
        -- no query, so nothing was flushed yet
        whenever (inviteExpired now invite) referral
        whenever valid (do
          let _ ← addMember now groupUid newUser.uid invite.groupRole invite.inviterUid
          flushAccepted now invite.uid newUser.uid)
        commit

end Operations

end Vivac
