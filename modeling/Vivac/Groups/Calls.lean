import Vivac.Endpoints.GroupLists
import Vivac.Groups.Acts
import Vivac.Lib.Turns

/-!
# The requests about groups and invites

All requests of the app's group router, of the console's and of the invites, with the logins that
may consume an invite (`GroupCall`), and what each has read once its checks are passed: who calls
(`IsCaller`), with which rank, and the rows it is about.
-/

set_option autoImplicit false

namespace Vivac

open Lib App

/-! ## Requests -/

/-- A request that answers what there is. -/
inductive GroupRead where
  | listMine (found : forUserOrder.Arrangement) (credentials : Credentials) (offset limit : ℕ)
  | get (credentials : Credentials) (groupUid : String)
  | listSpots (credentials : Credentials) (groupUid : String) (offset limit : ℕ)
  | listMembers (credentials : Credentials) (groupUid : String)
  | preview (inviteUid : String)
  | adminList (texts : TextRules) (sort order : String)
      (found : (SpotGroup.adminOrder texts sort order).Arrangement) (credentials : Credentials)
      (start stop : ℕ) (nameLike visibility userUid : Option String)
  | adminGet (credentials : Credentials) (groupUid : String)
  | adminListMembers (found : memberAdminOrder.Arrangement) (credentials : Credentials)
      (groupUid : String)
  | adminListSpots (credentials : Credentials) (groupUid : String) (offset limit : ℕ)

/-- A request about groups or invites, or a login. The uids of new rows are drawn for it. -/
inductive GroupCall where
  | read (r : GroupRead)
  | create (credentials : Credentials) (groupUid name : String) (description : Option String)
      (visibility : GroupVisibility)
  | update (credentials : Credentials) (groupUid : String) (data : List GroupAttr)
  | delete (credentials : Credentials) (groupUid : String)
  | addSpot (credentials : Credentials) (groupUid spotUid : String)
  | removeSpot (credentials : Credentials) (groupUid spotUid : String)
  | addMember (credentials : Credentials) (groupUid userUid : String) (role : GroupRole)
  | member (k : MemberCall)
  | adminCreate (credentials : Credentials) (groupUid name : String) (description : Option String)
      (visibility : GroupVisibility)
  | adminUpdate (credentials : Credentials) (groupUid : String) (data : List GroupAttr)
  | adminDelete (credentials : Credentials) (groupUid : String)
  | adminAddMember (credentials : Credentials) (groupUid userUid : String) (role : GroupRole)
  | adminAddSpot (credentials : Credentials) (groupUid spotUid : String)
  | adminRemoveSpot (credentials : Credentials) (groupUid spotUid : String)
  | createInvite (peer : Peer) (credentials : Credentials) (inviteUid : String)
      (payload : InviteCreate)
  | consume (k : InviteCall)

section Bodies

variable (cfg : Settings) (be : Backend) (now : Timestamp)

/-- What a reading request does in its session. -/
def GroupRead.body : GroupRead → App Unit
  | .listMine found credentials offset limit => do
    let _ ← SpotGroups.listMyGroups found credentials offset limit
  | .get credentials groupUid => do
    let _ ← SpotGroups.getGroup groupUid credentials
  | .listSpots credentials groupUid offset limit => do
    let _ ← SpotGroups.listGroupSpots be groupUid credentials offset limit
  | .listMembers credentials groupUid => do
    let _ ← SpotGroups.listGroupMembers groupUid credentials
  | .preview inviteUid => do
    let _ ← Invites.previewInvite inviteUid
  | .adminList texts sort order found credentials start stop nameLike visibility userUid => do
    let _ ← InternalSpotGroups.listGroups texts sort order found credentials start stop nameLike
      visibility userUid
  | .adminGet credentials groupUid => do
    let _ ← requireStaff credentials
    let _ ← InternalSpotGroups.getGroup groupUid
  | .adminListMembers found credentials groupUid => do
    let _ ← InternalSpotGroups.listGroupMembers found credentials groupUid
  | .adminListSpots credentials groupUid offset limit => do
    let _ ← InternalSpotGroups.listGroupSpots be credentials groupUid offset limit

namespace GroupCall

/-- What a request does in its session. -/
def body : GroupCall → App Unit
  | .read r => r.body be
  | .create credentials groupUid name description visibility => do
    let _ ← SpotGroups.createGroup now groupUid credentials name description visibility
  | .update credentials groupUid data => do
    let _ ← SpotGroups.updateGroup now groupUid credentials data
  | .delete credentials groupUid => SpotGroups.deleteGroup groupUid credentials
  | .addSpot credentials groupUid spotUid => do
    let _ ← SpotGroups.addGroupSpot cfg be now groupUid credentials spotUid
  | .removeSpot credentials groupUid spotUid =>
    SpotGroups.removeGroupSpot groupUid credentials spotUid
  | .addMember credentials groupUid userUid role => do
    let _ ← SpotGroups.inviteGroupMember now groupUid credentials userUid role
  | .member k => k.body
  | .adminCreate credentials groupUid name description visibility => do
    let _ ← InternalSpotGroups.createGroup now groupUid credentials name description visibility
  | .adminUpdate credentials groupUid data => do
    let _ ← InternalSpotGroups.updateGroup now credentials groupUid data
  | .adminDelete credentials groupUid => InternalSpotGroups.deleteGroup credentials groupUid
  | .adminAddMember credentials groupUid userUid role => do
    let _ ← InternalSpotGroups.addGroupMember now credentials groupUid userUid role
  | .adminAddSpot credentials groupUid spotUid => do
    let _ ← InternalSpotGroups.addGroupSpot now cfg be credentials groupUid spotUid
  | .adminRemoveSpot credentials groupUid spotUid =>
    InternalSpotGroups.removeGroupSpot credentials groupUid spotUid
  | .createInvite peer credentials inviteUid payload => do
    let _ ← Invites.createInvite now inviteUid peer credentials payload
  | .consume (.accept credentials inviteUid) => do
    let _ ← Invites.acceptInvite now credentials inviteUid
  | .consume (.signup uid nicknames info inviteUid) => do
    let _ ← Auth.googleLogin be now uid nicknames info inviteUid

def program (call : GroupCall) : App Unit := withSession (call.body cfg be now)

end GroupCall

end Bodies

/-! ## What is known of a request -/

def MemberCall.credentials : MemberCall → Credentials
  | .updateRole credentials _ _ _ | .remove credentials _ _
  | .adminUpdateRole credentials _ _ _ | .adminRemove credentials _ _ => credentials

namespace GroupCall

/-- Who makes a request that writes; a login makes it for the user whose row it may add. -/
def actor : GroupCall → Option String
  | .read _ => none
  | .create credentials .. | .update credentials .. | .delete credentials _
  | .addSpot credentials .. | .removeSpot credentials .. | .addMember credentials ..
  | .adminCreate credentials .. | .adminUpdate credentials .. | .adminDelete credentials _
  | .adminAddMember credentials .. | .adminAddSpot credentials .. | .adminRemoveSpot credentials ..
  | .createInvite _ credentials .. | .consume (.accept credentials _) => credentials.userUid
  | .member k => k.credentials.userUid
  | .consume (.signup uid ..) => some uid

/-- The invite that a request may accept; the empty text names none at a login. -/
def accepted : GroupCall → Option String
  | .consume (.accept _ inviteUid) => some inviteUid
  | .consume (.signup _ _ _ inviteUid) => inviteUid.filter (· != "")
  | _ => none

/-- The uid drawn for a new invite. -/
def made : GroupCall → Option String
  | .createInvite _ _ inviteUid _ => some inviteUid
  | _ => none

end GroupCall

/-- A request at its time. -/
structure TimedGroupCall where
  now : Timestamp
  call : GroupCall

namespace TimedGroupCall

def request (x : TimedGroupCall) : GroupRequest where
  now := x.now
  actor := x.call.actor
  accepted := x.call.accepted
  made := x.call.made

/-- The request runs to its end, with the outcome `r`. -/
def Serves (cfg : Settings) (be : Backend) (x : TimedGroupCall) (r : Except Exc Unit)
    (s s' : State Unit) : Prop :=
  runAlone (fun i => exec i) () (x.call.program cfg be x.now) s = some (r, s')

/-- The request runs to its end. -/
def Served (cfg : Settings) (be : Backend) (x : TimedGroupCall) (s s' : State Unit) : Prop :=
  ∃ r, x.Serves cfg be r s s'

theorem Serves.between {cfg : Settings} {be : Backend} {x : TimedGroupCall} {r : Except Exc Unit}
    {s s' : State Unit} (h : x.Serves cfg be r s s') : Between s' := between_of_withSession h

end TimedGroupCall

/-! ## Requests that read -/

section Reads

variable (be : Backend)

theorem readOnly_readableGroup (groupUid : String) (credentials : Credentials) :
    ReadOnly (SpotGroups.readableGroup groupUid credentials) := by
  apply (readOnly_findGroup groupUid).bind
  intro group
  apply (readOnly_getCurrentUserOptional credentials).bind
  intro user
  have hmembership : ReadOnly (SpotGroups.membershipOf group.uid user) := by
    cases user with
    | none => exact .ret _
    | some user => exact ReadOnly.select _
  have hreadable : ReadOnly (SpotGroups.requireReadable group user) := by
    unfold SpotGroups.requireReadable
    split
    · exact .ret _
    · apply hmembership.bind
      intro found
      cases found with
      | none => exact .raise _
      | some m => exact .ret _
  exact hreadable.bind fun _ => .ret _

theorem readOnly_toDetail (group : SpotGroup) (myRole : Option GroupRole) :
    ReadOnly (SpotGroups.toDetail group myRole) := (ReadOnly.select _).bind fun _ => .ret _

theorem readOnly_toAdminDetail (group : SpotGroup) :
    ReadOnly (InternalSpotGroups.toAdminDetail group) :=
  (ReadOnly.select _).bind fun _ => (ReadOnly.select _).bind fun _ => .ret _

theorem readOnly_listGroupsAdmin (texts : TextRules) {sort order : String}
    (found : (SpotGroup.adminOrder texts sort order).Arrangement) (offset limit : ℕ)
    (nameLike visibility userUid : Option String) :
    ReadOnly (listGroupsAdmin texts sort order found offset limit nameLike visibility userUid) := by
  apply (ReadOnly.ofExcept _).bind
  intro visible
  apply (ReadOnly.select _).bind
  intro total
  apply (ReadOnly.select _).bind
  intro groups
  apply (ReadOnly.select _).bind
  intro memberCounts
  apply (ReadOnly.select _).bind
  intro spotCounts
  exact .ret _

theorem readOnly_previewInvite (uid : String) : ReadOnly (Invites.previewInvite uid) := by
  apply (ReadOnly.select _).bind
  intro found
  cases found with
  | none => exact .raise _
  | some invite =>
      apply (ReadOnly.select _).bind
      intro inviter
      apply ReadOnly.bind
      · unfold Invites.invitedGroup
        split
        · exact .ret _
        · split
          · exact .ret _
          · exact ReadOnly.select _
      · intro group
        exact .ret _

/-- A reading request reads. -/
theorem GroupRead.readOnly_body (r : GroupRead) : ReadOnly (r.body be) := by
  cases r with
  | listMine found credentials offset limit =>
      refine ReadOnly.bind ?_ fun _ => .ret _
      apply (readOnly_getCurrentUser credentials).bind
      intro user
      exact (ReadOnly.select _).bind fun _ => .ret _
  | get credentials groupUid =>
      refine ReadOnly.bind ?_ fun _ => .ret _
      apply (readOnly_readableGroup groupUid credentials).bind
      rintro ⟨group, user⟩
      apply ReadOnly.bind
      · cases user with
        | none => exact .ret _
        | some user => exact ReadOnly.select _
      · intro membership
        exact readOnly_toDetail group _
  | listSpots credentials groupUid offset limit =>
      refine ReadOnly.bind ?_ fun _ => .ret _
      apply (readOnly_readableGroup groupUid credentials).bind
      rintro ⟨group, user⟩
      apply (ReadOnly.select _).bind
      intro rows
      exact (readOnly_getThumbnailsBySpots _).bind fun _ => .ret _
  | listMembers credentials groupUid =>
      refine ReadOnly.bind ?_ fun _ => .ret _
      apply (readOnly_requireGroupRole .viewer groupUid credentials).bind
      rintro ⟨group, membership⟩
      exact ReadOnly.select _
  | preview inviteUid => exact (readOnly_previewInvite inviteUid).bind fun _ => .ret _
  | adminList texts sort order found credentials start stop nameLike visibility userUid =>
      refine ReadOnly.bind ?_ fun _ => .ret _
      apply (readOnly_requireStaff credentials).bind
      intro staff
      show ReadOnly (if ((SpotGroup.adminSortable texts).lookup sort).isNone then _ else _)
      split
      · exact .raise _
      · exact (readOnly_listGroupsAdmin texts found _ _ _ _ _).bind fun _ => .ret _
  | adminGet credentials groupUid =>
      apply (readOnly_requireStaff credentials).bind
      intro staff
      refine ReadOnly.bind ?_ fun _ => .ret _
      exact (readOnly_findGroup groupUid).bind fun group => readOnly_toAdminDetail group
  | adminListMembers found credentials groupUid =>
      refine ReadOnly.bind ?_ fun _ => .ret _
      apply (readOnly_requireStaff credentials).bind
      intro staff
      apply (readOnly_findGroup groupUid).bind
      intro group
      exact (ReadOnly.select _).bind fun _ => .ret _
  | adminListSpots credentials groupUid offset limit =>
      refine ReadOnly.bind ?_ fun _ => .ret _
      apply (readOnly_requireStaff credentials).bind
      intro staff
      apply (readOnly_findGroup groupUid).bind
      intro group
      apply (ReadOnly.select _).bind
      intro rows
      exact (readOnly_getThumbnailsBySpots _).bind fun _ => .ret _

end Reads

end Vivac
