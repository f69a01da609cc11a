import Vivac.Groups.Governance
import Vivac.Lib.Faults

/-!
# The commands of the group requests

The requests about groups and invites, and the logins, leave the cache alone: each of their commands
goes to the database (`GroupCall.uses_program`).
-/

set_option autoImplicit false

namespace Vivac

open Lib App

/-- A command to the database. -/
def OnDatabase {β : Type} (c : Command β) : Prop := c.isDatabase = true

section Rules

variable {α β : Type}

theorem onDatabase_reads {p : App α} (h : ReadOnly p) : p.Uses OnDatabase := h.uses fun _ => rfl

/-- A check, and what follows on what it has read. -/
theorem onDatabase_read_bind {p : App β} {k : β → App α} (hp : ReadOnly p)
    (hk : ∀ b, (k b).Uses OnDatabase) : (p.bind k).Uses OnDatabase := (onDatabase_reads hp).bind hk

/-- A statement that writes, and what follows. -/
theorem onDatabase_write_bind {R : Type} {st : Statement R} {k : R → App α}
    (hk : ∀ r, (k r).Uses OnDatabase) : ((execute st).bind k).Uses OnDatabase :=
  Prog.Uses.bind (Prog.uses_perform rfl) hk

theorem onDatabase_commit_bind {k : Unit → App α} (hk : (k ()).Uses OnDatabase) :
    (commit.bind k).Uses OnDatabase := Prog.Uses.bind (Prog.uses_perform rfl) fun _ => hk

theorem onDatabase_commit : (commit : App Unit).Uses OnDatabase := Prog.uses_perform rfl

theorem onDatabase_whenever {c : Bool} {p : App Unit} (hp : p.Uses OnDatabase) :
    (whenever c p).Uses OnDatabase := by
  unfold whenever
  split
  · exact hp
  · trivial

/-- A statement that has to find its row. -/
theorem onDatabase_found (st : Statement Bool) (e : Exc) :
    ((execute st).bind fun found => if found then .ret () else .raise e).Uses OnDatabase := by
  apply onDatabase_write_bind
  intro found
  split <;> trivial

end Rules

/-! ## Groups, members and their spots -/

section Groups

variable (now : Timestamp)

theorem onDatabase_createGroup (groupUid ownerUid name : String) (description : Option String)
    (visibility : GroupVisibility) :
    (createGroup now groupUid ownerUid name description visibility).Uses OnDatabase := by
  apply onDatabase_write_bind
  intro _
  apply onDatabase_write_bind
  intro _
  exact onDatabase_commit_bind (onDatabase_reads (readOnly_refreshGroup groupUid))

theorem onDatabase_updateGroup (group : SpotGroup) (data : List GroupAttr) :
    (updateGroup now group data).Uses OnDatabase := by
  apply Prog.Uses.bind
  · unfold flushGroup
    dsimp only
    split
    · trivial
    · split
      · exact onDatabase_found _ _
      · trivial
  · intro _
    exact onDatabase_commit_bind (onDatabase_reads (readOnly_refreshGroup group.uid))

theorem onDatabase_deleteGroup (group : SpotGroup) : (deleteGroup group).Uses OnDatabase :=
  onDatabase_write_bind fun _ => onDatabase_commit

theorem onDatabase_addMember (groupUid userUid : String) (role : Option GroupRole)
    (invitedByUid : String) :
    (addMember now groupUid userUid role invitedByUid).Uses OnDatabase := by
  apply onDatabase_read_bind (ReadOnly.select _)
  intro found
  cases found with
  | some m => trivial
  | none =>
      apply onDatabase_write_bind
      intro _
      exact onDatabase_commit_bind (onDatabase_reads (readOnly_refreshMember groupUid userUid))

theorem onDatabase_requireAnotherOwner (groupUid : String) :
    (requireAnotherOwner groupUid).Uses OnDatabase :=
  onDatabase_read_bind (ReadOnly.select _) fun _ => onDatabase_whenever trivial

theorem onDatabase_updateMemberRole (member : SpotGroupMember) (role : GroupRole) :
    (updateMemberRole member role).Uses OnDatabase := by
  apply (onDatabase_whenever (onDatabase_requireAnotherOwner member.groupUid)).bind
  intro _
  apply (onDatabase_whenever (onDatabase_found _ _)).bind
  intro _
  exact onDatabase_commit_bind (onDatabase_reads (readOnly_refreshMember _ _))

theorem onDatabase_removeMember (member : SpotGroupMember) :
    (removeMember member).Uses OnDatabase := by
  apply (onDatabase_whenever (onDatabase_requireAnotherOwner member.groupUid)).bind
  intro _
  exact onDatabase_write_bind fun _ => onDatabase_commit

theorem onDatabase_addSpot (groupUid spotUid addedByUid : String) :
    (addSpot now groupUid spotUid addedByUid).Uses OnDatabase := by
  apply onDatabase_read_bind (ReadOnly.select _)
  intro found
  cases found with
  | some item => trivial
  | none =>
      apply onDatabase_write_bind
      intro _
      apply onDatabase_commit_bind
      apply onDatabase_read_bind (ReadOnly.select _)
      intro item
      cases item <;> trivial

theorem onDatabase_removeSpot (groupUid spotUid : String) :
    (removeSpot groupUid spotUid).Uses OnDatabase := by
  apply onDatabase_read_bind (ReadOnly.select _)
  intro found
  cases found with
  | none => trivial
  | some item => exact onDatabase_write_bind fun _ => onDatabase_commit_bind trivial

end Groups

/-! ## Invites and logins -/

section Invites

variable (be : Backend) (now : Timestamp)

theorem onDatabase_flushUser (uid : String) (f : Rewrite User.uid) :
    (flushUser uid f).Uses OnDatabase := onDatabase_found _ _

theorem onDatabase_flushReferral (user : User) (inviterUid : String) :
    (flushReferral user inviterUid).Uses OnDatabase :=
  onDatabase_whenever (onDatabase_flushUser _ _)

theorem onDatabase_isGroupInviteStillValid {autoflush : App Unit}
    (h : autoflush.Uses OnDatabase) (invite : Invite) (groupUid : String) :
    (isGroupInviteStillValid now autoflush invite groupUid).Uses OnDatabase := by
  unfold isGroupInviteStillValid
  split
  · trivial
  · apply h.bind
    intro _
    apply onDatabase_read_bind (ReadOnly.select _)
    intro group
    cases group with
    | none => trivial
    | some group =>
        dsimp only
        split
        · trivial
        · exact onDatabase_read_bind (ReadOnly.select _) fun _ => trivial

theorem onDatabase_refreshInvite (uid : String) : (refreshInvite uid).Uses OnDatabase := by
  apply onDatabase_read_bind (ReadOnly.select _)
  intro found
  cases found <;> trivial

theorem onDatabase_acceptInvite (invite : Invite) (userUid : String) :
    (acceptInvite now invite userUid).Uses OnDatabase := by
  have hnothing : (.ret () : App Unit).Uses OnDatabase := trivial
  unfold acceptInvite
  split
  · apply (onDatabase_isGroupInviteStillValid now hnothing _ _).bind
    intro valid
    split
    · apply (onDatabase_addMember now _ _ _ _).bind
      intro _
      apply (onDatabase_found _ _).bind
      intro _
      exact onDatabase_commit_bind (onDatabase_refreshInvite _)
    · trivial
  · trivial

theorem onDatabase_consumeInviteForSignup (inviteUid : String) (newUser : User) :
    (consumeInviteForSignup now inviteUid newUser).Uses OnDatabase := by
  apply onDatabase_read_bind (ReadOnly.select _)
  intro found
  cases found with
  | none => trivial
  | some invite =>
      dsimp only
      split
      · trivial
      · have hreferral := onDatabase_flushReferral newUser invite.inviterUid
        split
        · exact hreferral.bind fun _ => onDatabase_commit
        · apply (onDatabase_isGroupInviteStillValid now hreferral _ _).bind
          intro valid
          apply (onDatabase_whenever hreferral).bind
          intro _
          refine Prog.Uses.bind (onDatabase_whenever ?_) fun _ => onDatabase_commit
          exact (onDatabase_addMember now _ _ _ _).bind fun _ => onDatabase_found _ _

theorem readOnly_getUserByGoogleSub (googleSub : String) :
    ReadOnly (getUserByGoogleSub googleSub) :=
  (ReadOnly.select _).bind fun _ => ReadOnly.ofExcept _

theorem onDatabase_signIn (uid : String) (nicknames : ℕ → String) (info : GoogleInfo)
    (found : Option User) : (Auth.signIn be uid nicknames info found).Uses OnDatabase := by
  cases found with
  | none =>
      have hcreate : (createUser be uid nicknames info).Uses OnDatabase := by
        apply onDatabase_read_bind (readOnly_generateUniqueNickname _)
        intro nickname
        apply onDatabase_write_bind
        intro _
        exact onDatabase_commit_bind (onDatabase_reads (readOnly_refreshUser uid))
      apply hcreate.tryCatch
      intro e
      split
      · refine Prog.Uses.bind (Prog.uses_perform rfl) fun _ => ?_
        apply onDatabase_read_bind (readOnly_getUserByGoogleSub info.sub)
        intro found
        cases found <;> trivial
      · trivial
  | some user =>
      apply (onDatabase_whenever (onDatabase_flushUser _ _)).bind
      intro _
      exact onDatabase_commit_bind (onDatabase_reads (readOnly_refreshUser _))

theorem onDatabase_googleLogin (uid : String) (nicknames : ℕ → String)
    (info : Option GoogleInfo) (inviteUid : Option String) :
    (Auth.googleLogin be now uid nicknames info inviteUid).Uses OnDatabase := by
  cases info with
  | none => trivial
  | some info =>
      apply onDatabase_read_bind (readOnly_getUserByGoogleSub info.sub)
      intro found
      apply (onDatabase_signIn be uid nicknames info found).bind
      intro user
      split
      · apply Prog.Uses.bind
        · unfold Auth.consumeForNewUser
          split
          · exact onDatabase_whenever (onDatabase_consumeInviteForSignup now _ user)
          · trivial
        · intro _
          trivial
      · trivial

end Invites

/-! ## Requests -/

section Requests

variable (cfg : Settings) (be : Backend) (now : Timestamp)

theorem MemberCall.uses_body (k : MemberCall) : k.body.Uses OnDatabase := by
  have hmember : ∀ (group : SpotGroup) (caller : SpotGroupMember) (userUid : String),
      ReadOnly (SpotGroups.findMember group caller userUid) := by
    intro group caller userUid
    apply (ReadOnly.select _).bind
    intro found
    cases found with
    | none => exact .raise _
    | some m => exact .ret _
  have hadminMember : ∀ (group : SpotGroup) (userUid : String),
      ReadOnly (InternalSpotGroups.findMember group userUid) := by
    intro group userUid
    apply (ReadOnly.select _).bind
    intro found
    cases found with
    | none => exact .raise _
    | some m => exact .ret _
  cases k with
  | updateRole credentials groupUid userUid role =>
      refine Prog.Uses.bind ?_ fun _ => trivial
      apply onDatabase_read_bind (readOnly_requireGroupRole .owner groupUid credentials)
      rintro ⟨group, caller⟩
      apply onDatabase_read_bind (hmember group caller userUid)
      intro target
      exact onDatabase_updateMemberRole target role
  | remove credentials groupUid userUid =>
      apply onDatabase_read_bind (readOnly_requireGroupRole .owner groupUid credentials)
      rintro ⟨group, caller⟩
      apply onDatabase_read_bind (hmember group caller userUid)
      intro target
      exact onDatabase_removeMember target
  | adminUpdateRole credentials groupUid userUid role =>
      refine Prog.Uses.bind ?_ fun _ => trivial
      apply onDatabase_read_bind (readOnly_requireStaffRole .manager credentials)
      intro staff
      apply onDatabase_read_bind (readOnly_findGroup groupUid)
      intro group
      apply onDatabase_read_bind (hadminMember group userUid)
      intro target
      apply (onDatabase_updateMemberRole target role).bind
      intro member
      exact onDatabase_read_bind (readOnly_findUser _) fun _ => trivial
  | adminRemove credentials groupUid userUid =>
      apply onDatabase_read_bind (readOnly_requireStaffRole .manager credentials)
      intro staff
      apply onDatabase_read_bind (readOnly_findGroup groupUid)
      intro group
      apply onDatabase_read_bind (hadminMember group userUid)
      intro target
      exact onDatabase_removeMember target

/-- Whether invited, or looked for by the console, a new member is a user. -/
theorem onDatabase_inviteGroupMember (groupUid : String) (credentials : Credentials)
    (userUid : String) (role : GroupRole) :
    (SpotGroups.inviteGroupMember now groupUid credentials userUid role).Uses OnDatabase := by
  apply onDatabase_read_bind (readOnly_requireGroupRole .owner groupUid credentials)
  rintro ⟨group, caller⟩
  dsimp only
  split
  · trivial
  · apply onDatabase_read_bind (ReadOnly.select _)
    intro target
    cases target with
    | none => trivial
    | some target => exact onDatabase_addMember now _ _ _ _

theorem onDatabase_createInvite (peer : Peer) (credentials : Credentials) (inviteUid : String)
    (payload : InviteCreate) :
    (Invites.createInvite now inviteUid peer credentials payload).Uses OnDatabase := by
  apply onDatabase_read_bind (readOnly_checkRateLimit _ peer credentials)
  intro _
  apply onDatabase_read_bind (readOnly_getCurrentUser credentials)
  intro user
  have hcreate : (createInvite now inviteUid user.uid payload.groupUid payload.groupRole).Uses
      OnDatabase := by
    apply onDatabase_write_bind
    intro _
    exact onDatabase_commit_bind (onDatabase_refreshInvite inviteUid)
  have hinviter : ∀ groupUid, ReadOnly (Invites.checkInviter user groupUid) := by
    intro groupUid
    apply (ReadOnly.select _).bind
    intro group
    cases group with
    | none => exact .raise _
    | some group =>
        dsimp only
        split
        · exact .raise _
        · apply (ReadOnly.select _).bind
          intro membership
          cases membership with
          | none => exact .raise _
          | some membership => exact readOnly_whenever (.raise _)
  cases payload.groupUid with
  | none => exact hcreate
  | some groupUid => exact onDatabase_read_bind (hinviter groupUid) fun _ => hcreate

/-- What a group request does in its session. -/
theorem GroupCall.uses_body (call : GroupCall) : (call.body cfg be now).Uses OnDatabase := by
  cases call with
  | read r => exact onDatabase_reads (r.readOnly_body be)
  | create credentials groupUid name description visibility =>
      refine Prog.Uses.bind ?_ fun _ => trivial
      apply onDatabase_read_bind (readOnly_getCurrentUser credentials)
      intro user
      apply (onDatabase_createGroup now groupUid user.uid name description visibility).bind
      intro group
      exact onDatabase_reads (readOnly_toDetail group _)
  | update credentials groupUid data =>
      refine Prog.Uses.bind ?_ fun _ => trivial
      apply onDatabase_read_bind (readOnly_requireGroupRole .editor groupUid credentials)
      rintro ⟨group, caller⟩
      apply (onDatabase_updateGroup now group data).bind
      intro group
      exact onDatabase_reads (readOnly_toDetail group _)
  | delete credentials groupUid =>
      apply onDatabase_read_bind (readOnly_requireGroupRole .owner groupUid credentials)
      rintro ⟨group, caller⟩
      exact onDatabase_deleteGroup group
  | addSpot credentials groupUid spotUid =>
      refine Prog.Uses.bind ?_ fun _ => trivial
      apply onDatabase_read_bind (readOnly_requireGroupRole .contributor groupUid credentials)
      rintro ⟨group, caller⟩
      apply onDatabase_read_bind (readOnly_findPublishedSpot cfg spotUid)
      intro spot
      apply (onDatabase_addSpot now group.uid spot.uid caller.userUid).bind
      intro item
      exact onDatabase_read_bind (readOnly_getThumbnailsBySpots _) fun _ => trivial
  | removeSpot credentials groupUid spotUid =>
      apply onDatabase_read_bind (readOnly_requireGroupRole .editor groupUid credentials)
      rintro ⟨group, caller⟩
      apply (onDatabase_removeSpot group.uid spotUid).bind
      intro removed
      split <;> trivial
  | addMember credentials groupUid userUid role =>
      exact (onDatabase_inviteGroupMember now groupUid credentials userUid role).bind fun _ =>
        trivial
  | member k => exact k.uses_body
  | adminCreate credentials groupUid name description visibility =>
      refine Prog.Uses.bind ?_ fun _ => trivial
      apply onDatabase_read_bind (readOnly_requireStaff credentials)
      intro staff
      apply (onDatabase_createGroup now groupUid staff.uid name description visibility).bind
      intro group
      exact onDatabase_reads (readOnly_toAdminDetail group)
  | adminUpdate credentials groupUid data =>
      refine Prog.Uses.bind ?_ fun _ => trivial
      apply onDatabase_read_bind (readOnly_requireStaff credentials)
      intro staff
      apply onDatabase_read_bind (readOnly_findGroup groupUid)
      intro group
      apply (onDatabase_updateGroup now group data).bind
      intro group
      exact onDatabase_reads (readOnly_toAdminDetail group)
  | adminDelete credentials groupUid =>
      apply onDatabase_read_bind (readOnly_requireStaffRole .manager credentials)
      intro staff
      apply onDatabase_read_bind (readOnly_findGroup groupUid)
      intro group
      exact onDatabase_deleteGroup group
  | adminAddMember credentials groupUid userUid role =>
      refine Prog.Uses.bind ?_ fun _ => trivial
      apply onDatabase_read_bind (readOnly_requireStaffRole .manager credentials)
      intro staff
      apply onDatabase_read_bind (readOnly_findGroup groupUid)
      intro group
      apply onDatabase_read_bind (readOnly_findUser userUid)
      intro target
      exact (onDatabase_addMember now group.uid target.uid (some role) staff.uid).bind fun _ =>
        trivial
  | adminAddSpot credentials groupUid spotUid =>
      refine Prog.Uses.bind ?_ fun _ => trivial
      apply onDatabase_read_bind (readOnly_requireStaff credentials)
      intro staff
      apply onDatabase_read_bind (readOnly_findGroup groupUid)
      intro group
      apply onDatabase_read_bind (readOnly_findLiveSpot cfg spotUid)
      intro spot
      apply (onDatabase_addSpot now group.uid spot.uid staff.uid).bind
      intro item
      exact onDatabase_read_bind (readOnly_getThumbnailsBySpots _) fun _ => trivial
  | adminRemoveSpot credentials groupUid spotUid =>
      apply onDatabase_read_bind (readOnly_requireStaff credentials)
      intro staff
      apply onDatabase_read_bind (readOnly_findGroup groupUid)
      intro group
      apply (onDatabase_removeSpot group.uid spotUid).bind
      intro removed
      split <;> trivial
  | createInvite peer credentials inviteUid payload =>
      exact (onDatabase_createInvite now peer credentials inviteUid payload).bind fun _ => trivial
  | consume k =>
      cases k with
      | accept credentials inviteUid =>
          refine Prog.Uses.bind ?_ fun _ => trivial
          apply onDatabase_read_bind (readOnly_getCurrentUser credentials)
          intro user
          apply onDatabase_read_bind (ReadOnly.select _)
          intro found
          cases found with
          | none => trivial
          | some invite => exact onDatabase_acceptInvite now invite user.uid
      | signup uid nicknames info inviteUid =>
          refine Prog.Uses.bind ?_ fun _ => trivial
          exact onDatabase_googleLogin be now uid nicknames info inviteUid

/-- A group request leaves the cache alone. -/
theorem GroupCall.uses_program (call : GroupCall) : (call.program cfg be now).Uses OnDatabase := by
  apply (call.uses_body cfg be now).attempt.bind
  intro r
  exact Prog.Uses.bind (Prog.uses_perform rfl) fun _ => Prog.uses_ofExcept r

end Requests

end Vivac
