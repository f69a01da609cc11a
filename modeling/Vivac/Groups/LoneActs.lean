import Vivac.Groups.Calls

/-!
# Programs that are one act

What a program of a request has read, run by itself, once its checks are passed: the caller
(`IsCaller`, `IsCallerMember`), its rank, and the rows the request is about. What it writes then is
one act with the authority of that caller (`LoneAct`), and what consumes an invite accepts it or
leaves groups, members and invites alone (`ConsumeAct`).
-/

set_option autoImplicit false

namespace Vivac

open Lib App

/-! ## What a request has read -/

section Checks

variable {ι : Type} [DecidableEq ι] {i : ι} {db : Db} {credentials : Credentials}

theorem lone_findGroup {groupUid : String} :
    Lone i (Sees i db [] db) (SpotGroups.findGroup groupUid)
      (HasRead i db fun group => db.groups.find? groupUid = some group ∧ group.uid = groupUid) := by
  apply Lone.bind_ok (Lone.read fun d : Db => d.groups.find? groupUid)
  cases hfound : db.groups.find? groupUid with
  | none => exact Lone.raise _ fun s hs => hs.holds
  | some group => exact Lone.ret _ fun s hs => ⟨⟨rfl, (Table.find?_eq_some.1 hfound).2⟩, hs⟩

/-- The caller's membership of the group. -/
structure IsCallerMember (credentials : Credentials) (groupUid : String) (m : SpotGroupMember)
    (d : Db) : Prop where
  named : credentials.userUid = some m.userUid
  group : m.groupUid = groupUid
  found : d.members.find? (groupUid, m.userUid) = some m

theorem lone_requireGroupRole {minRole : GroupRole} {groupUid : String} :
    Lone i (Sees i db [] db) (SpotGroups.requireGroupRole minRole groupUid credentials)
      (HasRead i db fun out => db.groups.find? groupUid = some out.1 ∧ out.1.uid = groupUid ∧
        IsCallerMember credentials groupUid out.2 db ∧ minRole.rank ≤ out.2.role.rank) := by
  have hmember : Lone i (Sees i db [] db) (SpotGroups.membershipOr404 groupUid credentials)
      (HasRead i db fun out => db.groups.find? groupUid = some out.1 ∧ out.1.uid = groupUid ∧
        IsCallerMember credentials groupUid out.2 db) := by
    apply lone_read_bind lone_findGroup _ fun _ _ hs => hs
    rintro group ⟨hgroup, huid⟩
    apply lone_read_bind lone_caller _ fun _ _ hs => hs
    intro user huser
    have hfind : Lone i (Sees i db [] db) (SpotGroups.requireMember group user)
        (HasRead i db fun m => IsCallerMember credentials groupUid m db) := by
      apply Lone.bind_ok (Lone.read fun d : Db => d.members.find? (group.uid, user.uid))
      cases hfound : db.members.find? (group.uid, user.uid) with
      | none => exact Lone.raise _ fun s hs => hs.holds
      | some m =>
          have hkey := (Table.find?_eq_some.1 hfound).2
          rw [Prod.mk.injEq] at hkey
          refine Lone.ret _ fun s hs => ⟨⟨?_, hkey.1.trans huid, ?_⟩, hs⟩
          · rw [hkey.2]
            exact huser.named
          · rw [hkey.2, ← huid, hfound]
    apply lone_read_bind hfind _ fun _ _ hs => hs
    intro m hm
    exact Lone.ret _ fun s hs => ⟨⟨hgroup, huid, hm⟩, hs⟩
  apply lone_read_bind hmember _ fun _ _ hs => hs
  rintro ⟨group, m⟩ ⟨hgroup, huid, hm⟩
  show Lone i _ (if m.role.rank < minRole.rank then _ else _) _
  split
  · exact Lone.raise _ fun s hs => hs.holds
  · rename_i hrank
    exact Lone.ret _ fun s hs => ⟨⟨hgroup, huid, hm, Nat.le_of_not_lt hrank⟩, hs⟩

/-- The rank of an owner is an owner's only. -/
theorem owner_of_rank {role : GroupRole} (h : GroupRole.owner.rank ≤ role.rank) :
    role = .owner := by
  cases role <;> simp [GroupRole.rank] at h ⊢

theorem IsCallerMember.isOwner {groupUid : String} {m : SpotGroupMember}
    (h : IsCallerMember credentials groupUid m db) (hrank : GroupRole.owner.rank ≤ m.role.rank) :
    isOwner groupUid m.userUid db = true := by
  rw [Vivac.isOwner, h.found, Option.any_some, owner_of_rank hrank]
  rfl

theorem IsCallerMember.governs {groupUid : String} {m : SpotGroupMember}
    (h : IsCallerMember credentials groupUid m db) (hrank : GroupRole.owner.rank ≤ m.role.rank) :
    Governs credentials.userUid groupUid db := ⟨m.userUid, h.named, .inl (h.isOwner hrank)⟩

theorem IsCaller.governs {user : User} (h : IsCaller credentials user db)
    (hrank : isStaffOf .manager user.uid db = true) (groupUid : String) :
    Governs credentials.userUid groupUid db := ⟨user.uid, h.named, .inr hrank⟩

end Checks

/-! ## What a request writes -/

section Acts

variable {ι : Type} [DecidableEq ι] {i : ι} {db : Db} {q : GroupRequest} {now : Timestamp}
  {α β : Type}

/-- By itself the program ends in an act that `q` asks for. -/
def LoneAct (i : ι) (q : GroupRequest) (db : Db) (p : App α) : Prop :=
  Lone i (Sees i db [] db) p fun _ s => GroupAct q db s.db

/-- A program that has changed nothing. -/
theorem stays_of_holds {s : State ι} (h : Holds i db [] s) : GroupAct q db s.db := by
  rw [h.db_eq]
  exact .stays (.refl db)

theorem loneAct_readOnly {p : App α} (h : ReadOnly p) : LoneAct i q db p :=
  (lone_readOnly h).conseq (fun _ hs => hs) fun _ _ hs => stays_of_holds hs.holds

/-- A check, and what follows on what it has read. -/
theorem loneAct_read_bind {p : App β} {f : β → App α} {M : β → Prop}
    (hp : Lone i (Sees i db [] db) p (HasRead i db M)) (hf : ∀ b, M b → LoneAct i q db (f b)) :
    LoneAct i q db (p.bind f) :=
  lone_read_bind hp hf fun _ _ hs => stays_of_holds hs

/-- The same, whatever is read. -/
theorem loneAct_readOnly_bind {p : App β} {f : β → App α} (hp : ReadOnly p)
    (hf : ∀ b, LoneAct i q db (f b)) : LoneAct i q db (p.bind f) :=
  lone_readOnly_bind hp hf fun _ _ hs => stays_of_holds hs

/-- The commit of an act, and what reads after it. -/
theorem loneAct_committed {k : Unit → App α} (hk : ReadOnly (k ())) {d : Db} (h : GroupAct q db d) :
    Lone i (Sees i db [] d) (commit.bind k) fun _ s => GroupAct q db s.db :=
  (lone_committed hk).conseq (fun _ hs => hs) fun _ _ hs => by rwa [hs]

theorem readOnly_refreshGroup (uid : String) : ReadOnly (refreshGroup uid) := by
  apply (ReadOnly.select _).bind
  intro found
  cases found with
  | none => exact .raise _
  | some g => exact .ret _

theorem readOnly_refreshMember (groupUid userUid : String) :
    ReadOnly (refreshMember groupUid userUid) := by
  apply (ReadOnly.select _).bind
  intro found
  cases found with
  | none => exact .raise _
  | some m => exact .ret _

/-! ### Groups -/

theorem loneAct_createGroup {groupUid ownerUid name : String} {description : Option String}
    {visibility : GroupVisibility} {k : SpotGroup → App α} (hactor : q.actor = some ownerUid)
    (hk : ∀ g, ReadOnly (k g)) :
    LoneAct i q db ((createGroup now groupUid ownerUid name description visibility).bind k) := by
  unfold createGroup
  simp only [Prog.bind_eq_bind, Prog.bind_assoc]
  refine Lone.statement_bind (fun _ d₁ hgroup => ?_) fun e _ s hs => stays_of_holds hs
  obtain ⟨eff, heff, -, rfl⟩ := Stmt.ok_of_apply hgroup
  simp only [insertGroupRow] at heff
  split at heff
  · cases heff
  · rename_i hfresh
    cases heff
    refine Lone.statement_bind (fun _ d₂ hmember => ?_) fun e _ s hs => stays_of_holds hs
    obtain ⟨eff, heff, -, rfl⟩ := Stmt.ok_of_apply hmember
    simp only [insertMemberRow] at heff
    split at heff
    · cases heff
    · rename_i hnew
      split at heff
      · cases heff
      · cases heff
        refine loneAct_committed ((readOnly_refreshGroup groupUid).bind hk) ?_
        exact .creates _ _ hactor rfl rfl (by simpa using hfresh) (by simpa using hnew) rfl rfl rfl

theorem loneAct_updateGroup {group : SpotGroup} {data : List GroupAttr} {k : SpotGroup → App α}
    (hmay : MayEdit q.actor group.uid db) (hk : ∀ g, ReadOnly (k g)) :
    LoneAct i q db ((updateGroup now group data).bind k) := by
  have htail : ReadOnly ((refreshGroup group.uid).bind k) := (readOnly_refreshGroup _).bind hk
  unfold updateGroup flushGroup
  simp only [Prog.bind_eq_bind, Prog.bind_assoc]
  split
  · exact loneAct_committed htail (.stays (.refl db))
  · split
    · simp only [Prog.bind_assoc]
      refine Lone.statement_bind (fun found d₁ hupdate => ?_) fun e _ s hs => stays_of_holds hs
      obtain ⟨eff, heff, hfound, rfl⟩ := Stmt.ok_of_apply hupdate
      simp only [updateGroupRow] at heff
      split at heff
      · cases heff
        cases hfound
        exact Lone.raise _ fun s hs => stays_of_holds hs.holds
      · split at heff
        · cases heff
        · cases heff
          cases hfound
          exact loneAct_committed htail (.edits group.uid _ hmay rfl rfl rfl)
    · exact Lone.raise _ fun s hs => stays_of_holds hs.holds

theorem loneAct_deleteGroup {group : SpotGroup} (hmay : Governs q.actor group.uid db) :
    LoneAct i q db (deleteGroup group) := by
  refine Lone.statement_bind (fun _ d₁ hdelete => ?_) fun e _ s hs => stays_of_holds hs
  obtain ⟨eff, heff, -, rfl⟩ := Stmt.ok_of_apply hdelete
  cases heff
  refine Lone.conseq Lone.commit (fun _ hs => hs) fun r s hs => ?_
  rw [hs.2.holds.db_eq]
  exact .deletes group.uid hmay rfl rfl rfl

/-! ### Spots of groups -/

theorem loneAct_addSpot {groupUid spotUid addedByUid : String} {k : SpotGroupSpot → App α}
    (hk : ∀ item, ReadOnly (k item)) :
    LoneAct i q db ((addSpot now groupUid spotUid addedByUid).bind k) := by
  unfold addSpot
  simp only [Prog.bind_eq_bind, Prog.bind_assoc]
  apply Lone.bind_ok (Lone.read fun d : Db => d.groupSpots.find? (groupUid, spotUid))
  cases db.groupSpots.find? (groupUid, spotUid) with
  | some item => exact Lone.raise _ fun s hs => stays_of_holds hs.holds
  | none =>
      dsimp only
      simp only [Prog.bind_assoc]
      refine Lone.statement_bind (fun _ d₁ hinsert => ?_) fun e _ s hs => stays_of_holds hs
      obtain ⟨eff, heff, -, rfl⟩ := Stmt.ok_of_apply hinsert
      simp only [insertGroupSpotRow] at heff
      split at heff
      · cases heff
      · split at heff
        · cases heff
        · cases heff
          refine loneAct_committed ?_ (.stays ⟨rfl, rfl, rfl⟩)
          apply (ReadOnly.select _).bind
          intro found
          cases found with
          | none => exact .raise _
          | some item => exact hk item

theorem loneAct_removeSpot {groupUid spotUid : String} {k : Bool → App α}
    (hk : ∀ removed, ReadOnly (k removed)) :
    LoneAct i q db ((removeSpot groupUid spotUid).bind k) := by
  unfold removeSpot
  simp only [Prog.bind_eq_bind, Prog.bind_assoc]
  apply Lone.bind_ok (Lone.read fun d : Db => d.groupSpots.find? (groupUid, spotUid))
  cases db.groupSpots.find? (groupUid, spotUid) with
  | none => exact loneAct_readOnly (hk false)
  | some item =>
      dsimp only
      simp only [Prog.bind_assoc]
      refine Lone.statement_bind (fun _ d₁ hdelete => ?_) fun e _ s hs => stays_of_holds hs
      obtain ⟨eff, heff, -, rfl⟩ := Stmt.ok_of_apply hdelete
      cases heff
      exact loneAct_committed (hk true) (.stays ⟨rfl, rfl, rfl⟩)

/-! ### Members -/

/-- A new member, with its row. -/
theorem newMember_eq_ok {groupUid userUid invitedByUid : String} {role : Option GroupRole} {d : Db}
    {out : Unit × Db} (hnew : d.members.find? (groupUid, userUid) = none)
    (h : (insertNewMember now groupUid userUid role invitedByUid).apply d = .ok out) :
    ∃ m : SpotGroupMember, m.groupUid = groupUid ∧ m.userUid = userUid ∧ role = some m.role ∧
      m.invitedByUid = some invitedByUid ∧ d.members.find? (m.groupUid, m.userUid) = none ∧
      out.2 = { d with members := d.members.insert m } := by
  obtain ⟨_, d'⟩ := out
  obtain ⟨eff, heff, -, rfl⟩ := Stmt.ok_of_apply h
  simp only [insertNewMember, newMember] at heff
  cases role with
  | none => cases heff
  | some role =>
      simp only [insertMemberRow] at heff
      split at heff
      · cases heff
      · split at heff
        · cases heff
        · cases heff
          exact ⟨_, rfl, rfl, rfl, rfl, hnew, rfl⟩

theorem loneAct_addMember {groupUid userUid invitedByUid : String} {role : Option GroupRole}
    {k : SpotGroupMember → App α} (hmay : Governs q.actor groupUid db) (hk : ∀ m, ReadOnly (k m)) :
    LoneAct i q db ((addMember now groupUid userUid role invitedByUid).bind k) := by
  unfold addMember
  simp only [Prog.bind_eq_bind, Prog.bind_assoc]
  apply Lone.bind_ok (Lone.read fun d : Db => d.members.find? (groupUid, userUid))
  cases hnew : db.members.find? (groupUid, userUid) with
  | some m => exact Lone.raise _ fun s hs => stays_of_holds hs.holds
  | none =>
      dsimp only
      simp only [Prog.bind_assoc]
      refine Lone.statement_bind (fun _ d₁ hinsert => ?_) fun e _ s hs => stays_of_holds hs
      obtain ⟨m, hgroup, -, -, -, hfresh, hd₁⟩ := newMember_eq_ok hnew hinsert
      dsimp only at hd₁
      rw [hd₁]
      refine loneAct_committed ((readOnly_refreshMember groupUid userUid).bind hk) ?_
      exact .adds m (by rw [hgroup]; exact hmay) hfresh rfl rfl rfl

/-- A member in no role of an owner. -/
theorem isOwner_of_role {m : SpotGroupMember} {groupUid userUid : String}
    (h : db.members.find? (groupUid, userUid) = some m) :
    isOwner groupUid userUid db = (m.role == .owner) := by
  rw [isOwner, h, Option.any_some]

/-- What lets a member lose its role: it is no owner, or not the only one. -/
theorem lone_anotherOwner {groupUid : String} {c : Bool} {k : Unit → App α}
    (hk : (c = true → 1 < (owners groupUid db).length) → LoneAct i q db (k ())) :
    LoneAct i q db ((whenever c (requireAnotherOwner groupUid)).bind k) := by
  cases c with
  | false => exact hk fun h => by cases h
  | true =>
      simp only [whenever, requireAnotherOwner, countOwners, if_true, Prog.bind_eq_bind,
        Prog.bind_assoc]
      apply Lone.bind_ok (Lone.read fun d : Db => (owners groupUid d).length)
      split
      · exact Lone.raise _ fun s hs => stays_of_holds hs.holds
      · rename_i hcount
        exact hk fun _ => by simpa using hcount

variable {k : MemberCall} {target : SpotGroupMember}

theorem loneAct_updateMemberRole {role : GroupRole} {f : SpotGroupMember → App α}
    (hmay : Governs q.actor k.groupUid db) (hrole : k.role = some role)
    (htarget : db.members.find? (k.groupUid, k.userUid) = some target)
    (hf : ∀ m, ReadOnly (f m)) : LoneAct i q db ((updateMemberRole target role).bind f) := by
  have hkey := (Table.find?_eq_some.1 htarget).2
  rw [Prod.mk.injEq] at hkey
  have htail : ReadOnly ((refreshMember target.groupUid target.userUid).bind f) :=
    (readOnly_refreshMember _ _).bind hf
  unfold updateMemberRole
  simp only [Prog.bind_eq_bind, Prog.bind_assoc]
  apply lone_anotherOwner
  intro hcount
  cases hchange : target.role != role with
  | false => exact loneAct_committed htail (.stays (.refl db))
  | true =>
      simp only [whenever, if_true, Prog.bind_assoc]
      refine Lone.statement_bind (fun found d₁ hupdate => ?_) fun e _ s hs => stays_of_holds hs
      obtain ⟨eff, heff, hfound, rfl⟩ := Stmt.ok_of_apply hupdate
      simp only [updateMemberRow] at heff
      split at heff
      · cases heff
        cases hfound
        refine loneAct_committed htail (.changes k hmay ?_ rfl ?_ rfl)
        · by_cases howner : role = .owner
          · exact .inl (by rw [hrole, howner])
          · refine .inr ?_
            rw [isOwner_of_role htarget]
            cases htargetOwner : target.role == .owner with
            | false => exact .inl rfl
            | true =>
                rw [hkey.1] at hcount
                exact .inr (hcount (by simp [htargetOwner, howner]))
        · rw [MemberCall.written, hrole, ← hkey.1, ← hkey.2]
      · cases heff
        cases hfound
        exact Lone.raise _ fun s hs => stays_of_holds hs.holds

theorem loneAct_removeMember (hmay : Governs q.actor k.groupUid db) (hrole : k.role = none)
    (htarget : db.members.find? (k.groupUid, k.userUid) = some target) :
    LoneAct i q db (removeMember target) := by
  have hkey := (Table.find?_eq_some.1 htarget).2
  rw [Prod.mk.injEq] at hkey
  apply lone_anotherOwner
  intro hcount
  refine Lone.statement_bind (fun _ d₁ hdelete => ?_) fun e _ s hs => stays_of_holds hs
  obtain ⟨eff, heff, -, rfl⟩ := Stmt.ok_of_apply hdelete
  simp only [deleteMemberRow, hkey.1, hkey.2, htarget, Option.isSome_some, if_true] at heff
  cases heff
  refine Lone.conseq Lone.commit (fun _ hs => hs) fun r s hs => ?_
  rw [hs.2.holds.db_eq]
  refine .changes k hmay (.inr ?_) rfl ?_ rfl
  · rw [isOwner_of_role htarget]
    cases hplain : target.role == .owner with
    | false => exact .inl rfl
    | true =>
        rw [hkey.1] at hcount
        exact .inr (hcount hplain)
  · rw [MemberCall.written, hrole]

/-- The member an owner asks for; its own row is what the session has loaded. -/
theorem lone_findMember {group : SpotGroup} {caller : SpotGroupMember} {groupUid userUid : String}
    (hgroup : group.uid = groupUid)
    (hcaller : db.members.find? (groupUid, caller.userUid) = some caller) :
    Lone i (Sees i db [] db) (SpotGroups.findMember group caller userUid)
      (HasRead i db fun target => db.members.find? (groupUid, userUid) = some target) := by
  apply Lone.bind_ok (Lone.read fun d : Db => d.members.find? (group.uid, userUid))
  rw [hgroup]
  cases hfound : db.members.find? (groupUid, userUid) with
  | none => exact Lone.raise _ fun s hs => hs.holds
  | some target =>
      refine Lone.ret _ fun s hs => ⟨?_, hs⟩
      split
      · rename_i hself
        have huser : target.userUid = userUid :=
          congrArg Prod.snd (Table.find?_eq_some.1 hfound).2
        rw [← hfound, ← huser, hself, hcaller]
      · rfl

theorem lone_findMemberAdmin {group : SpotGroup} {groupUid userUid : String}
    (hgroup : group.uid = groupUid) :
    Lone i (Sees i db [] db) (InternalSpotGroups.findMember group userUid)
      (HasRead i db fun target => db.members.find? (groupUid, userUid) = some target) := by
  apply Lone.bind_ok (Lone.read fun d : Db => d.members.find? (group.uid, userUid))
  rw [hgroup]
  cases hfound : db.members.find? (groupUid, userUid) with
  | none => exact Lone.raise _ fun s hs => hs.holds
  | some target => exact Lone.ret _ fun s hs => ⟨rfl, hs⟩

end Acts

/-! ## Invites -/

section Invites

variable {ι : Type} [DecidableEq ι] {i : ι} {db d : Db} {q : GroupRequest} {α : Type}

/-- The caller may invite as an owner of the group. -/
theorem lone_checkInviter {user : User} {groupUid : String} :
    Lone i (Sees i db [] db) (Invites.checkInviter user groupUid)
      (HasRead i db fun _ => isOwner groupUid user.uid db = true) := by
  apply Lone.bind_ok (Lone.read fun d : Db => d.groups.find? groupUid)
  cases hgroup : db.groups.find? groupUid with
  | none => exact Lone.raise _ fun s hs => hs.holds
  | some group =>
      have huid : group.uid = groupUid := (Table.find?_eq_some.1 hgroup).2
      dsimp only
      split
      · exact Lone.raise _ fun s hs => hs.holds
      · apply Lone.bind_ok (Lone.read fun d : Db => d.members.find? (group.uid, user.uid))
        rw [huid]
        cases hfound : db.members.find? (groupUid, user.uid) with
        | none => exact Lone.raise _ fun s hs => hs.holds
        | some m =>
            dsimp only
            unfold whenever
            split
            · exact Lone.raise _ fun s hs => hs.holds
            · rename_i howner
              refine Lone.ret _ fun s hs => ⟨?_, hs⟩
              rw [isOwner_of_role hfound]
              simpa using howner

theorem loneAct_createInvite {uid inviterUid : String} {groupUid : Option String}
    {groupRole : Option GroupRole} {k : Invite → App α} (hmade : q.made = some uid)
    (hactor : q.actor = some inviterUid)
    (hmay : ∀ g, groupUid = some g → isOwner g inviterUid db = true) (hk : ∀ v, ReadOnly (k v)) :
    LoneAct i q db ((createInvite q.now uid inviterUid groupUid groupRole).bind k) := by
  unfold createInvite
  simp only [Prog.bind_eq_bind, Prog.bind_assoc]
  refine Lone.statement_bind (fun _ d₁ hinsert => ?_) fun e _ s hs => stays_of_holds hs
  obtain ⟨eff, heff, -, rfl⟩ := Stmt.ok_of_apply hinsert
  simp only [insertInviteRow] at heff
  split at heff
  · cases heff
  · rename_i hfresh
    split at heff
    · cases heff
    · cases heff
      refine loneAct_committed ?_
        (.invites _ hmade hactor rfl hmay (by simpa using hfresh) rfl rfl rfl)
      refine ReadOnly.bind ((ReadOnly.select _).bind fun found => ?_) hk
      cases found with
      | none => exact .raise _
      | some v => exact .ret _

/-- An invite is accepted with a new member, or groups, members and invites stay. -/
def ConsumeAct (q : GroupRequest) (d d' : Db) : Prop :=
  LeavesGroups d d' ∨ ∃ v m, Accepts q v m d d'

theorem ConsumeAct.act {d' : Db} (h : ConsumeAct q d d') : GroupAct q d d' := by
  rcases h with hstays | ⟨v, m, haccepts⟩
  · exact .stays hstays
  · exact .accepts v m haccepts

/-- A membership and an acceptance, committed one after the other, are one act. -/
theorem accepts_of_inserted {invite : Invite} {groupUid userUid : String} {after : Db}
    (hsame : LeavesGroups db d) (haccepted : q.accepted = some invite.uid)
    (hactor : q.actor = some userUid) (hinvite : db.invites.find? invite.uid = some invite)
    (hpending : invite.status = .pending) (hgroup : invite.groupUid = some groupUid)
    (hvalid : StillValid q.now invite groupUid d)
    (hinsert : Inserted q.now invite groupUid userUid d after) :
    ConsumeAct q db (rewriteInvite invite.uid (setAccepted q.now userUid) after) := by
  obtain ⟨m, rfl, rfl, hrole, hinviter, hfresh, hafter⟩ :=
    newMember_eq_ok hinsert.fresh hinsert.insert
  dsimp only at hafter
  rw [hsame.members] at hfresh
  refine .inr ⟨invite, m, haccepted, hactor, hinvite, hpending, hgroup, ?_, hrole, hinviter, hfresh,
    ?_, ?_, ?_⟩
  · obtain ⟨hyoung, hopen, howner⟩ := hvalid
    rw [hsame.groups] at hopen
    rw [hsame.members] at howner
    exact ⟨hyoung, hopen, howner⟩
  · rw [hafter, rewriteInvite, hsame.groups]
  · rw [hafter, rewriteInvite, hsame.members]
  · rw [hafter, rewriteInvite, rewriteInvite, hsame.invites]

/-- An acceptance is one act, and one that ends in an error has changed nothing. -/
theorem lone_acceptInvite {invite : Invite} {userUid : String}
    (haccepted : q.accepted = some invite.uid) (hactor : q.actor = some userUid)
    (hinvite : db.invites.find? invite.uid = some invite) :
    Lone i (Sees i db [] db) (acceptInvite q.now invite userUid) fun r s =>
      ConsumeAct q db s.db ∧ ∀ e, r = .error e → s.db = db := by
  by_cases hjoins : Joins q.now invite userUid db
  · obtain ⟨groupUid, hgroup, hvalid, after, hinsert⟩ := hjoins.joins
    have hthere : after.invites.find? invite.uid = some invite := by
      rw [hinsert.facts.2.1, hinvite]
    obtain ⟨m, hmember⟩ := walk_addMember (i := i) db hinsert
    have hnothing : Walk i (Sees i db [] db) (.ret () : App Unit) []
        fun r s => r = .ok () ∧ Sees i db [] db s := Walk.ret () fun s hs => ⟨rfl, hs⟩
    have hact :=
        accepts_of_inserted (.refl db) haccepted hactor hinvite hjoins.pending hgroup hvalid
      hinsert
    unfold acceptInvite
    rw [hjoins.pending, hgroup]
    apply Lone.bind_ok (walk_valid hnothing hvalid).lone
    apply Lone.bind_ok hmember.lone
    apply Lone.bind_ok (walk_flushAccepted hthere).lone
    apply Lone.bind_ok Lone.commit
    apply Lone.bind_ok (Lone.read fun d : Db => d.invites.find? invite.uid)
    -- the invite is there still, so that it can be read again
    rw [find?_rewriteInvite, hthere]
    refine Lone.ret _ fun s hs => ⟨?_, fun e he => by cases he⟩
    rw [hs.holds.db_eq]
    exact hact
  · obtain ⟨n, hwalk⟩ := walk_acceptInvite_error (i := i) hjoins
    refine hwalk.lone.conseq (fun _ hs => hs) fun r s hs => ?_
    rw [hs]
    exact ⟨.inl (.refl db), fun _ _ => rfl⟩

theorem leavesGroups_afterReferral (user : User) (inviterUid : String) (d : Db) :
    LeavesGroups d (afterReferral user inviterUid d) := by
  unfold afterReferral
  split
  · exact ⟨rfl, rfl, rfl⟩
  · exact .refl d

/-- The signup of a user that is there, from tables with the groups, members and invites of `db`. -/
theorem lone_consumeInviteForSignup {user : User} {inviteUid : String}
    (haccepted : q.accepted = some inviteUid) (hactor : q.actor = some user.uid)
    (hsame : LeavesGroups db d) (huser : (d.users.find? user.uid).isSome = true) :
    Lone i (Sees i d [] d) (consumeInviteForSignup q.now inviteUid user) fun _ s =>
      ConsumeAct q db s.db := by
  cases hinvite : d.invites.find? inviteUid with
  | none =>
      unfold consumeInviteForSignup
      apply Lone.bind_ok (Lone.read fun d : Db => d.invites.find? inviteUid)
      rw [hinvite]
      refine Lone.ret _ fun s hs => ?_
      rw [hs.holds.db_eq]
      exact .inl hsame
  | some invite =>
      obtain rfl : invite.uid = inviteUid := (Table.find?_eq_some.1 hinvite).2
      have hreferral := hsame.trans (leavesGroups_afterReferral user invite.inviterUid d)
      by_cases hjoins : Joins q.now invite user.uid (afterReferral user invite.inviterUid d)
      · obtain ⟨groupUid, hgroup, hvalid, after, hinsert⟩ := hjoins.joins
        have hwalk :=
            walk_consumeInviteForSignup (i := i) huser hjoins.pending hgroup hvalid hinsert
          hinvite
        refine hwalk.lone.conseq (fun _ hs => hs) fun r s hs => ?_
        rw [hs]
        rw [hsame.invites] at hinvite
        exact accepts_of_inserted hreferral haccepted hactor hinvite hjoins.pending hgroup hvalid
          hinsert
      · obtain ⟨n, hwalk⟩ := walk_consumeInviteForSignup_other (i := i) huser hjoins hinvite
        refine hwalk.lone.conseq (fun _ hs => hs) fun r s hs => .inl ?_
        rcases hs with hs | hs <;> rw [hs]
        · exact hsame
        · exact hreferral

end Invites

/-! ## Logins -/

section Logins

variable {ι : Type} [DecidableEq ι] {i : ι} {db : Db} {q : GroupRequest} {be : Backend}
  {uid : String} {nicknames : ℕ → String} {info : GoogleInfo} {α : Type}

theorem readOnly_generateUniqueNickname (candidates : List String) :
    ReadOnly (generateUniqueNickname candidates) := by
  induction candidates with
  | nil => exact .raise _
  | cons candidate candidates ih =>
      apply (ReadOnly.select _).bind
      intro found
      apply (ReadOnly.ofExcept _).bind
      intro taken
      cases taken with
      | none => exact .ret _
      | some _ => exact ih

theorem readOnly_refreshUser (uid : String) : ReadOnly (refreshUser uid) := by
  apply (ReadOnly.select _).bind
  intro found
  cases found with
  | none => exact .raise _
  | some u => exact .ret _

/-- The end of a first login: the new user is committed, or nothing is. -/
def SignedUp (i : ι) (db : Db) (uid : String) (r : Except Exc User) (s : State ι) : Prop :=
  match r with
  | .ok user => user.uid = uid ∧ user.isActive = true ∧ user.referredByUid = none ∧
      db.users.find? uid = none ∧ Sees i { db with users := db.users.insert user } []
        { db with users := db.users.insert user } s
  | .error _ => Holds i db [] s

theorem lone_createUser :
    Lone i (Sees i db [] db) (createUser be uid nicknames info) (SignedUp i db uid) := by
  unfold createUser
  refine Lone.bind (fun _ s => Sees i db [] db s)
    (lone_readOnly (readOnly_generateUniqueNickname _)) (fun nickname => ?_) fun e s hs => hs.holds
  refine Lone.statement_bind (fun _ d₁ hinsert => ?_) fun e _ s hs => hs
  obtain ⟨eff, heff, -, rfl⟩ := Stmt.ok_of_apply hinsert
  simp only [insertUserRow] at heff
  split at heff
  · cases heff
  · rename_i hfresh
    cases heff
    have hnone : db.users.find? uid = none := by
      rw [Bool.or_eq_true, not_or] at hfresh
      simpa using hfresh.1
    apply Lone.bind_ok Lone.commit
    refine Lone.bind_ok (Lone.read fun d : Db => d.users.find? uid) ?_
    dsimp only
    rw [Table.find?_insert_self hnone]
    exact Lone.ret _ fun s hs => ⟨rfl, rfl, rfl, hnone, hs⟩

/-- Nobody else has made the account meanwhile, so that what is refused stays refused. -/
theorem lone_firstLogin
    (hnone : (db.users.select fun u => u.googleSub == info.sub) = []) :
    Lone i (Sees i db [] db) (Auth.firstLogin be uid nicknames info) (SignedUp i db uid) := by
  refine Alone.tryCatch (SignedUp i db uid) lone_createUser (fun user s hs => hs) fun e => ?_
  split
  · refine Lone.bind_ok (Lone.rollback.conseq (fun s hs => ⟨hs.free, hs.db_eq⟩) fun _ _ hs => hs) ?_
    unfold getUserByGoogleSub
    simp only [Prog.bind_eq_bind, Prog.bind_assoc]
    apply Lone.bind_ok (Lone.read fun d : Db => d.users.select fun u => u.googleSub == info.sub)
    rw [hnone]
    exact Lone.raise e fun s hs => hs.holds
  · exact Lone.raise e fun s hs => hs

/-- A login of a user who has an account writes the profile only. -/
theorem lone_updateUserProfile {user : User} {name picture : Option String} {k : User → App α}
    (hk : ∀ u, ReadOnly (k u)) :
    Lone i (Sees i db [] db) ((updateUserProfile user name picture).bind k) fun _ s =>
      LeavesGroups db s.db := by
  have hstays : ∀ s : State ι, Holds i db [] s → LeavesGroups db s.db := by
    intro s hs
    rw [hs.db_eq]
    exact .refl db
  have hcommitted : ∀ {d : Db}, LeavesGroups db d → Lone i (Sees i db [] d)
      (commit.bind fun _ => (refreshUser user.uid).bind k) fun _ s => LeavesGroups db s.db := by
    intro d hd
    refine (lone_committed ((readOnly_refreshUser _).bind hk)).conseq (fun _ hs => hs) ?_
    intro _ s hs
    rwa [hs]
  unfold updateUserProfile whenever
  simp only [Prog.bind_eq_bind, Prog.bind_assoc]
  split
  · unfold flushUser
    simp only [Prog.bind_eq_bind, Prog.bind_assoc]
    refine Lone.statement_bind (fun found d₁ hupdate => ?_) fun e _ s hs => hstays s hs
    obtain ⟨eff, heff, hfound, rfl⟩ := Stmt.ok_of_apply hupdate
    simp only [updateUserRow] at heff
    split at heff
    · cases heff
      cases hfound
      exact hcommitted ⟨rfl, rfl, rfl⟩
    · cases heff
      cases hfound
      exact Lone.raise _ fun s hs => hstays s hs.holds
  · exact hcommitted (.refl db)

/-- The tables with a new user. -/
def withUser (user : User) (d : Db) : Db := { d with users := d.users.insert user }

/-- A first login: what follows the commit of the new user decides. -/
theorem lone_loginOfNew {inviteUid : Option String} {now : Timestamp}
    {Q : Except Exc String → Db → Prop}
    (hnone : (db.users.select fun u => u.googleSub == info.sub) = [])
    (hrefused : ∀ e, Q (.error e) db)
    (hconsume : ∀ user : User, user.uid = uid → user.referredByUid = none →
      db.users.find? uid = none → Lone i (Sees i (withUser user db) [] (withUser user db))
        (Auth.consumeForNewUser now true inviteUid user) fun r s =>
          (r = .ok () → Q (.ok uid) s.db) ∧ ∀ e, r = .error e → Q (.error e) s.db) :
    Lone i (Sees i db [] db) (Auth.googleLogin be now uid nicknames (some info) inviteUid)
      fun r s => Q r s.db := by
  unfold Auth.googleLogin getUserByGoogleSub
  simp only [Prog.bind_eq_bind, Prog.bind_assoc]
  apply Lone.bind_ok (Lone.read fun d : Db => d.users.select fun u => u.googleSub == info.sub)
  rw [hnone]
  simp only [scalarOneOrNone, Prog.ofExcept, Prog.bind_ret, Auth.signIn]
  refine Lone.bind (SignedUp i db uid) (lone_firstLogin hnone) (fun user => ?_) fun e s hs => ?_
  · rintro s ⟨rfl, hactive, hreferred, hfresh, hsees⟩
    rw [if_pos hactive]
    refine Lone.bind _ (hconsume user rfl hreferred hfresh) (fun _ => ?_) (fun e t ht => ht.2 e rfl)
      s hsees
    exact Lone.ret _ fun t ht => ht.1 rfl
  · rw [hs.db_eq]
    exact hrefused e

theorem leavesGroups_withUser (user : User) (d : Db) : LeavesGroups d (withUser user d) :=
  ⟨rfl, rfl, rfl⟩

theorem isSome_find?_withUser (user : User) (d : Db) :
    ((withUser user d).users.find? user.uid).isSome = true := by
  rw [withUser, Table.isSome_find?_insert]
  simp

theorem lone_googleLogin {info : Option GoogleInfo} {inviteUid : Option String}
    (haccepted : q.accepted = inviteUid.filter (· != "")) (hactor : q.actor = some uid) :
    Lone i (Sees i db [] db) (Auth.googleLogin be q.now uid nicknames info inviteUid) fun _ s =>
      ConsumeAct q db s.db := by
  have hstays : ∀ {d : Db} (s : State ι), LeavesGroups db d → Holds i d [] s →
      ConsumeAct q db s.db := by
    intro d s hd hs
    rw [hs.db_eq]
    exact .inl hd
  cases info with
  | none => exact Lone.raise _ fun s hs => hstays s (.refl db) hs.holds
  | some info =>
      cases hselect : db.users.select fun u => u.googleSub == info.sub with
      | nil =>
          refine lone_loginOfNew (Q := fun _ d => ConsumeAct q db d) hselect
            (fun e => .inl (.refl db))
            fun user huid _ _ => ?_
          have hsame := leavesGroups_withUser user db
          refine Lone.conseq (Q := fun _ s => ConsumeAct q db s.db) ?_ (fun _ hs => hs)
            fun r s hs => ⟨fun _ => hs, fun _ _ => hs⟩
          unfold Auth.consumeForNewUser
          cases inviteUid with
          | none => exact Lone.ret _ fun s hs => hstays s hsame hs.holds
          | some inviteUid =>
              dsimp only
              unfold whenever
              split
              · rename_i hnamed
                have hname : (inviteUid != "") = true := by simpa using hnamed
                refine lone_consumeInviteForSignup ?_ ?_ hsame (isSome_find?_withUser user db)
                · rw [haccepted, Option.filter_some, if_pos hname]
                · rw [hactor, huid]
              · exact Lone.ret _ fun s hs => hstays s hsame hs.holds
      | cons user rest =>
          unfold Auth.googleLogin getUserByGoogleSub
          simp only [Prog.bind_eq_bind, Prog.bind_assoc]
          apply Lone.bind_ok (Lone.read fun d : Db => d.users.select fun u =>
            u.googleSub == info.sub)
          rw [hselect]
          cases rest with
          | nil =>
              refine Lone.conseq (Q := fun _ s => LeavesGroups db s.db) ?_ (fun _ hs => hs)
                fun r s hs => .inl hs
              refine lone_updateUserProfile fun user => ?_
              split
              · refine ReadOnly.bind ?_ fun _ => .ret _
                unfold Auth.consumeForNewUser
                cases inviteUid with
                | none => exact .ret _
                | some inviteUid => exact .ret _
              · exact .raise _
          | cons other rest => exact Lone.raise _ fun s hs => hstays s (.refl db) hs.holds

end Logins

end Vivac
