import Vivac.Crud.Spot

/-!
# Groups

`crud/spot_group.py`: groups, their members and their spots.
-/

set_option autoImplicit false

namespace Vivac

open Lib App

namespace GroupAttr

/-- `setattr(group, key, value)`; a null name or visibility has no row to write. -/
def set (a : GroupAttr) (g : SpotGroup) : Option SpotGroup :=
  match a with
  | .name v => v.map fun v => { g with name := v }
  | .description v => some { g with description := v }
  | .visibility v => v.map fun v => { g with visibility := v }

def unchanged (a : GroupAttr) (g : SpotGroup) : Bool :=
  match a with
  | .name v => v == some g.name
  | .description v => v == g.description
  | .visibility v => v == some g.visibility

/-- The value is no text that the database cannot store. -/
def storable : GroupAttr → Bool
  | .name v | .description v => v.all isStorable
  | .visibility _ => true

def setAll : List GroupAttr → SpotGroup → Option SpotGroup
  | [], g => some g
  | a :: as, g => (a.set g).bind (setAll as)

theorem uid_of_setAll {as : List GroupAttr} {g g' : SpotGroup} (h : setAll as g = some g') :
    g'.uid = g.uid := by
  induction as generalizing g with
  | nil =>
    cases h
    rfl
  | cons a as ih =>
    obtain ⟨t, ht, hg'⟩ := Option.bind_eq_some_iff.1 h
    rw [ih hg']
    cases a with
    | name v | visibility v =>
      obtain ⟨w, -, rfl⟩ := Option.map_eq_some_iff.1 ht
      rfl
    | description v =>
      cases ht
      rfl

end GroupAttr

/-! ## Statements -/

/-- `INSERT INTO spot_groups`. -/
def insertGroupRow (g : SpotGroup) : Statement Unit :=
  fun _ d =>
    if (d.groups.find? g.uid).isSome then .error (integrityError "spot_groups_pkey")
    else .ok ⟨(), fun d => { d with groups := d.groups.insert g }, [.group g.uid], [.group g.uid]⟩

/-- Replace the group `uid` by its new version. -/
def rewriteGroup (uid : String) (f : Rewrite SpotGroup.uid) (d : Db) : Db :=
  { d with groups := d.groups.rewrite (fun g => g.uid == uid) f }

/-- `UPDATE spot_groups SET .. WHERE uid = ..`; answers whether a row matched. -/
def updateGroupRow (uid : String) (f : Rewrite SpotGroup.uid) : Statement Bool :=
  fun _ d =>
    match d.groups.find? uid with
    | none => .ok ⟨false, id, [], []⟩
    | some g =>
      match f.apply g with
      | none => .error (integrityError "null value violates not-null constraint")
      | some _ => .ok ⟨true, rewriteGroup uid f, [.group uid], [.group uid]⟩

/-- Remove a group with its members, spots and invites, as the foreign keys cascade. -/
def removeGroup (uid : String) (d : Db) : Db where
  __ := d
  groups := d.groups.delete fun g => g.uid == uid
  members := d.members.delete fun m => m.groupUid == uid
  groupSpots := d.groupSpots.delete fun g => g.groupUid == uid
  invites := d.invites.delete fun i => i.groupUid == some uid

/-- `DELETE FROM spot_groups WHERE uid = ..`. -/
def deleteGroupRow (uid : String) : Statement Unit :=
  fun _ d =>
    let members := d.members.select fun m => m.groupUid == uid
    let spots := d.groupSpots.select fun g => g.groupUid == uid
    let invites := d.invites.select fun i => i.groupUid == some uid
    .ok
      { result := ()
        write := removeGroup uid
        locks := .group uid :: members.map (fun m => .member uid m.userUid) ++
          spots.map (fun g => .groupSpot uid g.spotUid) ++ invites.map fun i => .invite i.uid
        changes := [.group uid] }

/-- `INSERT INTO spot_group_members`. -/
def insertMemberRow (m : SpotGroupMember) : Statement Unit :=
  fun _ d =>
    if (d.members.find? (m.groupUid, m.userUid)).isSome then
      .error (integrityError "spot_group_members_pkey")
    else if (d.groups.find? m.groupUid).isNone || (d.users.find? m.userUid).isNone ||
        m.invitedByUid.any fun u => (d.users.find? u).isNone then
      .error (integrityError "foreign key constraint")
    else .ok ⟨(), fun d => { d with members := d.members.insert m },
      [.member m.groupUid m.userUid], [.member m.groupUid m.userUid]⟩

/-- The row of a new member; a null role has no row to write. -/
def newMember (now : Timestamp) (groupUid userUid : String) (role : Option GroupRole)
    (invitedByUid : String) : Except Exc SpotGroupMember :=
  match role with
  | none => .error (integrityError "null value violates not-null constraint")
  | some role => .ok
    { groupUid := groupUid, userUid := userUid, role := role, invitedByUid := some invitedByUid,
      createdAt := some now }

/-- The flush of a new member. -/
def insertNewMember (now : Timestamp) (groupUid userUid : String) (role : Option GroupRole)
    (invitedByUid : String) : Statement Unit :=
  fun locked d =>
    match newMember now groupUid userUid role invitedByUid with
    | .error e => .error e
    | .ok m => insertMemberRow m locked d

/-- Give a member a role. -/
def writeRole (groupUid userUid : String) (role : GroupRole) (d : Db) : Db where
  __ := d
  members := d.members.update (fun m => m.groupUid == groupUid && m.userUid == userUid)
    (fun m => { m with role := role }) fun _ => rfl

/-- `UPDATE spot_group_members SET role = ..`; answers whether a row matched. -/
def updateMemberRow (groupUid userUid : String) (role : GroupRole) : Statement Bool :=
  fun _ d =>
    if (d.members.find? (groupUid, userUid)).isSome then
      .ok ⟨true, writeRole groupUid userUid role, [.member groupUid userUid],
        [.member groupUid userUid]⟩
    else .ok ⟨false, id, [], []⟩

/-- Take a member out. -/
def dropMember (groupUid userUid : String) (d : Db) : Db where
  __ := d
  members := d.members.delete fun m => m.groupUid == groupUid && m.userUid == userUid

/-- `DELETE FROM spot_group_members`; a missing row is no error. -/
def deleteMemberRow (groupUid userUid : String) : Statement Unit :=
  fun _ d =>
    if (d.members.find? (groupUid, userUid)).isSome then
      .ok ⟨(), dropMember groupUid userUid, [.member groupUid userUid],
        [.member groupUid userUid]⟩
    else .ok ⟨(), id, [], []⟩

/-- `INSERT INTO spot_group_spots`. -/
def insertGroupSpotRow (g : SpotGroupSpot) : Statement Unit :=
  fun _ d =>
    if (d.groupSpots.find? (g.groupUid, g.spotUid)).isSome then
      .error (integrityError "spot_group_spots_pkey")
    else if (d.groups.find? g.groupUid).isNone || (d.spots.find? g.spotUid).isNone ||
        (d.users.find? g.addedByUid).isNone then
      .error (integrityError "foreign key constraint")
    else .ok ⟨(), fun d => { d with groupSpots := d.groupSpots.insert g },
      [.groupSpot g.groupUid g.spotUid], [.groupSpot g.groupUid g.spotUid]⟩

/-- Take a spot out of a group. -/
def dropGroupSpot (groupUid spotUid : String) (d : Db) : Db where
  __ := d
  groupSpots := d.groupSpots.delete fun g => g.groupUid == groupUid && g.spotUid == spotUid

/-- `DELETE FROM spot_group_spots`. -/
def deleteGroupSpotRow (groupUid spotUid : String) : Statement Unit :=
  fun _ _ =>
    .ok ⟨(), dropGroupSpot groupUid spotUid, [.groupSpot groupUid spotUid],
      [.groupSpot groupUid spotUid]⟩

/-! ## Operations -/

section Operations

variable (now : Timestamp)

def getGroupByUid (uid : String) : App (Option SpotGroup) := select fun d => d.groups.find? uid

def getMembership (groupUid userUid : String) : App (Option SpotGroupMember) :=
  select fun d => d.members.find? (groupUid, userUid)

/-- `session.refresh(group)`. -/
def refreshGroup (uid : String) : App SpotGroup := do
  match ← getGroupByUid uid with
  | some g => return g
  | none => .raise (.database "InvalidRequestError" "Could not refresh instance")

/-- `session.refresh(member)`. -/
def refreshMember (groupUid userUid : String) : App SpotGroupMember := do
  match ← getMembership groupUid userUid with
  | some m => return m
  | none => .raise (.database "InvalidRequestError" "Could not refresh instance")

/-- A new group with its owner; `groupUid` is the fresh uid of its row. -/
def createGroup (groupUid ownerUid name : String) (description : Option String)
    (visibility : GroupVisibility) : App SpotGroup := do
  execute (insertGroupRow
    { uid := groupUid, name := name, description := description, visibility := visibility,
      createdAt := some now, updatedAt := some now })
  execute (insertMemberRow
    { groupUid := groupUid, userUid := ownerUid, role := .owner, createdAt := some now })
  commit
  refreshGroup groupUid

/-- `count_group_members`. -/
def countGroupMembers (groupUid : String) : App ℕ :=
  select fun d => (d.members.select fun m => m.groupUid == groupUid).length

/-- The spots of a group that are not deleted, counted. -/
def countGroupSpots (groupUid : String) : App ℕ :=
  select fun d => (d.groupSpots.select fun g => g.groupUid == groupUid &&
    (d.spots.find? g.spotUid).any fun s => s.deletedAt.isNone).length

/-- The pairs of an update dictionary set in a row, and `updated_at`. -/
def setGroup (data : List GroupAttr) : Rewrite SpotGroup.uid where
  apply g := (GroupAttr.setAll data g).map fun g => { g with updatedAt := some now }
  keeps h := by
    obtain ⟨t, ht, rfl⟩ := Option.map_eq_some_iff.1 h
    have huid : t.uid = _ := GroupAttr.uid_of_setAll ht
    exact huid

/-- The flush of the changed pairs of `data`. -/
def flushGroup (loaded : SpotGroup) (data : List GroupAttr) : App Unit :=
  let changed := data.filter fun a => !a.unchanged loaded
  if changed.isEmpty then .ret ()
  else if changed.all GroupAttr.storable then do
    let found ← execute (updateGroupRow loaded.uid (setGroup now changed))
    if found then .ret () else .raise staleDataError
  else .raise textNotStorable

/-- Partial update of a loaded group. -/
def updateGroup (group : SpotGroup) (data : List GroupAttr) : App SpotGroup := do
  flushGroup now group data
  commit
  refreshGroup group.uid

def deleteGroup (group : SpotGroup) : App Unit := do
  execute (deleteGroupRow group.uid)
  commit

/-- A new member; `role` may come from an invite, where it may be null. -/
def addMember (groupUid userUid : String) (role : Option GroupRole) (invitedByUid : String) :
    App SpotGroupMember := do
  match ← getMembership groupUid userUid with
  | some _ => .raise (.app .spotGroupMemberAlreadyExists "Already a member of this group")
  | none => do
    execute (insertNewMember now groupUid userUid role invitedByUid)
    commit
    refreshMember groupUid userUid

/-- `list_members`, in the order they came. -/
def listMembers (groupUid : String) : App (List SpotGroupMember) :=
  select fun d => (d.members.select fun m => m.groupUid == groupUid).insertionSort
    fun a b => a.createdAt.getD 0 ≤ b.createdAt.getD 0

/-- The owners of a group. -/
def owners (groupUid : String) (d : Db) : List SpotGroupMember :=
  d.members.select fun m => m.groupUid == groupUid && m.role == .owner

def countOwners (groupUid : String) : App ℕ := select fun d => (owners groupUid d).length

/-- The guard of demotion and removal: refuse when the group has no other owner. -/
def requireAnotherOwner (groupUid : String) : App Unit := do
  let n ← countOwners groupUid
  whenever (n ≤ 1)
    (.raise (.app .spotGroupLastOwnerRequired "Group must keep at least one owner"))

/-- Change the role of a loaded member; the only owner cannot be demoted. -/
def updateMemberRole (member : SpotGroupMember) (role : GroupRole) : App SpotGroupMember := do
  whenever (member.role == .owner && role != .owner) (requireAnotherOwner member.groupUid)
  whenever (member.role != role) (do
    let found ← execute (updateMemberRow member.groupUid member.userUid role)
    if found then .ret () else .raise staleDataError)
  commit
  refreshMember member.groupUid member.userUid

/-- Remove a loaded member; the only owner cannot be removed. -/
def removeMember (member : SpotGroupMember) : App Unit := do
  whenever (member.role == .owner) (requireAnotherOwner member.groupUid)
  execute (deleteMemberRow member.groupUid member.userUid)
  commit

def addSpot (groupUid spotUid addedByUid : String) : App SpotGroupSpot := do
  match ← select fun d => d.groupSpots.find? (groupUid, spotUid) with
  | some _ => .raise (.app .spotGroupSpotAlreadyExists "Spot already in this group")
  | none => do
    execute (insertGroupSpotRow
      { groupUid := groupUid, spotUid := spotUid, addedByUid := addedByUid, createdAt := some now })
    commit
    match ← select fun d => d.groupSpots.find? (groupUid, spotUid) with
    | some item => return item
    | none => .raise (.database "InvalidRequestError" "Could not refresh instance")

/-- Take a spot out of a group; answers whether it was in it. -/
def removeSpot (groupUid spotUid : String) : App Bool := do
  match ← select fun d => d.groupSpots.find? (groupUid, spotUid) with
  | none => return false
  | some _ => do
    execute (deleteGroupSpotRow groupUid spotUid)
    commit
    return true

/-- The spots of a group that are not deleted, latest addition first. -/
def groupSpotRows (groupUid : String) (d : Db) : List (Spot × SpotGroupSpot) :=
  ((d.groupSpots.select fun g => g.groupUid == groupUid).filterMap fun g =>
    ((d.spots.find? g.spotUid).filter fun s => s.deletedAt.isNone).map fun s =>
    (s, g)).insertionSort
      fun a b => b.2.createdAt.getD 0 ≤ a.2.createdAt.getD 0

def listGroupSpots (groupUid : String) (offset limit : ℕ) : App (List (Spot × SpotGroupSpot)) :=
  select fun d => ((groupSpotRows groupUid d).drop offset).take limit

end Operations

end Vivac
