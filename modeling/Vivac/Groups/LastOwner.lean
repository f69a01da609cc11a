import Vivac.Access.ReadingChecks
import Vivac.Core.SampleBackend
import Mathlib.Data.Fintype.Basic

/-!
# The last owner of a group

Any number of requests that change the role of a member or remove one, interleaved statement by
statement. A request counts the owners of the group and then writes the row of one member; two
requests on two members count two owners each, and none is left (`last_owner_lost`).

When a request that takes the role of an owner away commits only while the owners it met are owners
still, and one about a member who is no owner only while the member has not become one, a group
that has an owner has one in every committed state (`owner_kept`).
-/

set_option autoImplicit false

namespace Vivac

open Lib App

/-! ## Owners -/

/-- The user is an owner of the group. -/
def isOwner (groupUid userUid : String) (d : Db) : Bool :=
  (d.members.find? (groupUid, userUid)).any fun m => m.role == .owner

/-- The group has an owner. -/
def HasOwner (groupUid : String) (d : Db) : Prop := ∃ userUid, isOwner groupUid userUid d = true

section Owners

variable {groupUid userUid : String} {d d' : Db}

theorem isOwner_iff : isOwner groupUid userUid d = true ↔
    ∃ m ∈ owners groupUid d, m.userUid = userUid := by
  simp only [isOwner, owners, Option.any_eq_true, beq_iff_eq, Table.mem_select, Bool.and_eq_true]
  constructor
  · rintro ⟨m, hm, hrole⟩
    obtain ⟨hmem, hkey⟩ := Table.find?_eq_some.1 hm
    rw [Prod.mk.injEq] at hkey
    exact ⟨m, ⟨hmem, hkey.1, hrole⟩, hkey.2⟩
  · rintro ⟨m, ⟨hmem, hgroup, hrole⟩, huser⟩
    exact ⟨m, Table.find?_eq_some.2 ⟨hmem, by rw [hgroup, huser]⟩, hrole⟩

theorem hasOwner_iff : HasOwner groupUid d ↔ owners groupUid d ≠ [] := by
  constructor
  · rintro ⟨u, hu⟩
    obtain ⟨m, hm, -⟩ := isOwner_iff.1 hu
    exact List.ne_nil_of_mem hm
  · intro h
    obtain ⟨m, hm⟩ := List.exists_mem_of_ne_nil _ h
    exact ⟨m.userUid, isOwner_iff.2 ⟨m, hm, rfl⟩⟩

/-- Of two owners one is not the user. -/
theorem exists_other_owner (h : 1 < (owners groupUid d).length) (userUid : String) :
    ∃ other, other ≠ userUid ∧ isOwner groupUid other d = true := by
  cases hrows : owners groupUid d with
  | nil => simp [hrows] at h
  | cons m rest =>
      cases rest with
      | nil => simp [hrows] at h
      | cons m' rest =>
          have hmem : m ∈ owners groupUid d := by simp [hrows]
          have hmem' : m' ∈ owners groupUid d := by simp [hrows]
          by_cases hm : m.userUid = userUid
          · refine ⟨m'.userUid, fun hm' => ?_, isOwner_iff.2 ⟨m', hmem', rfl⟩⟩
            -- two rows of one user in one group are one row
            obtain ⟨hrow, hgroup⟩ := Table.mem_select.1 hmem
            obtain ⟨hrow', hgroup'⟩ := Table.mem_select.1 hmem'
            simp only [Bool.and_eq_true, beq_iff_eq] at hgroup hgroup'
            have hsame : m = m' := by
              apply d.members.eq_of_key_eq hrow hrow'
              rw [hgroup.1, hgroup'.1, hm, hm']
            have hnodup : (owners groupUid d).Nodup := d.members.nodup_rows.filter _
            simp [hrows, hsame] at hnodup
          · exact ⟨m.userUid, hm, isOwner_iff.2 ⟨m, hmem, rfl⟩⟩

/-- A new role makes an owner of its member, or takes that away; the others stay. -/
theorem isOwner_writeRole (member : String) (role : GroupRole) (u : String) :
    isOwner groupUid u (writeRole groupUid member role d) =
      if u = member then (d.members.find? (groupUid, u)).isSome && role == .owner
      else isOwner groupUid u d := by
  simp only [isOwner, writeRole, Table.find?_update]
  cases hm : d.members.find? (groupUid, u) with
  | none => simp
  | some m =>
      have hkey := (Table.find?_eq_some.1 hm).2
      rw [Prod.mk.injEq] at hkey
      by_cases hu : u = member
      · simp [hkey.1, hkey.2, hu]
      · simp [hkey.1, hkey.2, hu]

theorem isOwner_writeRole_of_ne {other : String} (h : groupUid ≠ other) (member : String)
    (role : GroupRole) (u : String) :
    isOwner groupUid u (writeRole other member role d) = isOwner groupUid u d := by
  simp only [isOwner, writeRole, Table.find?_update]
  cases hm : d.members.find? (groupUid, u) with
  | none => rfl
  | some m =>
      have hkey := (Table.find?_eq_some.1 hm).2
      rw [Prod.mk.injEq] at hkey
      simp [hkey.1, h]

theorem isOwner_dropMember (other member u : String) :
    isOwner groupUid u (dropMember other member d) =
      (isOwner groupUid u d && !decide (groupUid = other ∧ u = member)) := by
  simp only [isOwner, dropMember, Table.find?_delete]
  cases hm : d.members.find? (groupUid, u) with
  | none => rfl
  | some m =>
      have hkey := (Table.find?_eq_some.1 hm).2
      rw [Prod.mk.injEq] at hkey
      by_cases hsame : groupUid = other ∧ u = member
      · simp [Option.filter, hkey.1, hkey.2, hsame.1, hsame.2]
      · simp only [Option.filter, hkey.1, hkey.2]
        grind

end Owners

/-! ## Requests -/

/-- A request that changes the role of a member or removes one, in the app or in the console. -/
inductive MemberCall where
  | updateRole (credentials : Credentials) (groupUid userUid : String) (role : GroupRole)
  | remove (credentials : Credentials) (groupUid userUid : String)
  | adminUpdateRole (credentials : Credentials) (groupUid userUid : String) (role : GroupRole)
  | adminRemove (credentials : Credentials) (groupUid userUid : String)

namespace MemberCall

def groupUid : MemberCall → String
  | .updateRole _ groupUid _ _ | .remove _ groupUid _ | .adminUpdateRole _ groupUid _ _
  | .adminRemove _ groupUid _ => groupUid

/-- The member that it is about. -/
def userUid : MemberCall → String
  | .updateRole _ _ userUid _ | .remove _ _ userUid | .adminUpdateRole _ _ userUid _
  | .adminRemove _ _ userUid => userUid

/-- The role the member gets; none when it is removed. -/
def role : MemberCall → Option GroupRole
  | .updateRole _ _ _ role | .adminUpdateRole _ _ _ role => some role
  | .remove _ _ _ | .adminRemove _ _ _ => none

/-- What a request does in its session. -/
def body : MemberCall → App Unit
  | .updateRole credentials groupUid userUid role => do
    let _ ← SpotGroups.updateGroupMemberRole groupUid credentials userUid role
  | .remove credentials groupUid userUid =>
    SpotGroups.removeGroupMember groupUid credentials userUid
  | .adminUpdateRole credentials groupUid userUid role => do
    let _ ← InternalSpotGroups.updateGroupMemberRole credentials groupUid userUid role
  | .adminRemove credentials groupUid userUid =>
    InternalSpotGroups.removeGroupMember credentials groupUid userUid

def program (k : MemberCall) : App Unit := withSession k.body

/-- The tables with the member's new role, or without the member. -/
def written (k : MemberCall) (d : Db) : Db :=
  match k.role with
  | some role => writeRole k.groupUid k.userUid role d
  | none => dropMember k.groupUid k.userUid d

/-- It may take the role of an owner away. -/
def lowers (k : MemberCall) : Bool := k.role != some .owner

end MemberCall

/-! ## What a request writes -/

section Written

variable {k : MemberCall} {g u : String} {d : Db}

/-- Another member, or another group. -/
theorem isOwner_written_of_ne (h : g = k.groupUid → u ≠ k.userUid) :
    isOwner g u (k.written d) = isOwner g u d := by
  unfold MemberCall.written
  split
  · by_cases hg : g = k.groupUid
    · rw [hg, isOwner_writeRole, if_neg (h hg)]
    · exact isOwner_writeRole_of_ne hg _ _ _
  · rw [isOwner_dropMember]
    by_cases hg : g = k.groupUid
    · simp [h hg]
    · simp [hg]

/-- An owner who is given the role of an owner stays one. -/
theorem isOwner_written_owner (hrole : k.role = some .owner) (h : isOwner g u d = true) :
    isOwner g u (k.written d) = true := by
  by_cases hsame : g = k.groupUid ∧ u = k.userUid
  · obtain ⟨rfl, rfl⟩ := hsame
    have hmember : (d.members.find? (k.groupUid, k.userUid)).isSome = true := by
      obtain ⟨m, hm, -⟩ := Option.any_eq_true _ _ |>.1 h
      rw [hm]
      rfl
    simp [MemberCall.written, hrole, isOwner_writeRole, hmember]
  · rw [isOwner_written_of_ne fun hg hu => hsame ⟨hg, hu⟩]
    exact h

/-- The group keeps an owner, when it has another one than the member. -/
theorem hasOwner_written {other : String} (hne : other ≠ k.userUid)
    (hother : isOwner k.groupUid other d = true) (h : HasOwner g d) : HasOwner g (k.written d) := by
  by_cases hg : g = k.groupUid
  · subst hg
    exact ⟨other, by rwa [isOwner_written_of_ne fun _ => hne]⟩
  · obtain ⟨u, hu⟩ := h
    exact ⟨u, by rwa [isOwner_written_of_ne fun hsame => absurd hsame hg]⟩

/-- It keeps its owners, when the member is none of them. -/
theorem hasOwner_written_of_plain (hplain : isOwner k.groupUid k.userUid d = false)
    (h : HasOwner g d) : HasOwner g (k.written d) := by
  obtain ⟨u, hu⟩ := h
  refine ⟨u, ?_⟩
  rwa [isOwner_written_of_ne]
  rintro rfl rfl
  rw [hplain] at hu
  cases hu

end Written

/-- What a request commits: nothing; the role of an owner; or a change after it has counted another
owner, or seen that its member is none. What it met then was met by the statement before the one
that writes. -/
inductive CommitsMember (k : MemberCall) (w : Work Db RowKey Change) (seen : List Db)
    (commits : List (List Change)) : Prop
  | quiet (hwrite : w.write = id)
  | owner (hrole : k.role = some .owner) (hwrite : w.write = k.written)
  | counted (d : Db) (hseen : seen[1]? = some d) (hcount : 1 < (owners k.groupUid d).length)
      (hchanges : w.changes ≠ []) (hwrite : w.write = k.written)
  | plain (d : Db) (hseen : seen[1]? = some d) (hplain : isOwner k.groupUid k.userUid d = false)
      (hchanges : w.changes ≠ []) (hwrite : w.write = k.written)

section Commits

variable {k : MemberCall} {o : Own Db RowKey Change} {α : Type}

/-- The target as the session has loaded it: what the last statement met, or the caller's row, of an
owner. -/
structure Target (k : MemberCall) (target : SpotGroupMember) (o : Own Db RowKey Change) : Prop where
  group : target.groupUid = k.groupUid
  user : target.userUid = k.userUid
  loaded : target.role = .owner ∨
    ∃ d, o.seen[0]? = some d ∧ isOwner k.groupUid k.userUid d = false
  unwritten : Unwritten o

/-- Taking a role away: after the check the write of the member is committed. -/
theorem warrants_checked {c : Bool} {target : SpotGroupMember} {p : App α}
    (h : Target k target o) (hc : target.role = .owner → c = true)
    (hp : ∀ o', (∃ d, o'.seen[0]? = some d ∧ (1 < (owners k.groupUid d).length ∨
        isOwner k.groupUid k.userUid d = false)) → Unwritten o' →
      Warrants (fun _ => True) (CommitsMember k) (Returns fun _ _ => True) p o') :
    Warrants (fun _ => True) (CommitsMember k) (Returns fun _ _ => True)
      ((whenever c (requireAnotherOwner target.groupUid)).bind fun _ => p) o := by
  cases c with
  | true =>
      simp only [whenever, requireAnotherOwner, countOwners, if_true, Prog.bind_eq_bind,
        Prog.bind_assoc]
      apply Warrants.read allows_returns
      rintro w hw d -
      split
      · trivial
      · rename_i hcount
        apply hp
        · refine ⟨d, rfl, .inl ?_⟩
          have hid : w.write = id := h.unwritten w hw
          rw [hid, h.group] at hcount
          simpa using hcount
        · rintro w' hw'
          cases hw'
          exact h.unwritten w hw
  | false =>
      rcases h.loaded with howner | ⟨d, hseen, hplain⟩
      · cases hc howner
      · exact hp o ⟨d, hseen, .inr hplain⟩ h.unwritten

theorem quiet_refreshMember (groupUid userUid : String) :
    (refreshMember groupUid userUid).Uses Command.Quiet := by
  refine Prog.Uses.bind (Prog.uses_perform trivial) fun found => ?_
  cases found <;> trivial

/-- The tail of a request that has nothing to write. -/
theorem warrants_commitQuiet {f : Unit → App α} (ho : Unwritten o)
    (hf : (f ()).Uses Command.Quiet) :
    Warrants (fun _ => True) (CommitsMember k) (Returns fun _ _ => True) (commit.bind f) o := by
  obtain ⟨work, seen, commits⟩ := o
  cases work with
  | none => exact ⟨warrants_of_quiet hf, trivial⟩
  | some w => exact Warrants.commit allows_returns rfl (.quiet (ho w rfl)) (warrants_of_quiet hf)

theorem warrants_updateMemberRole {target : SpotGroupMember} {role : GroupRole}
    {f : SpotGroupMember → App α} (h : Target k target o) (hrole : k.role = some role)
    (hf : ∀ m, (f m).Uses Command.Quiet) :
    Warrants (fun _ => True) (CommitsMember k) (Returns fun _ _ => True)
      ((updateMemberRole target role).bind f) o := by
  have htail : ((refreshMember target.groupUid target.userUid).bind f).Uses Command.Quiet :=
    (quiet_refreshMember _ _).bind hf
  unfold updateMemberRole
  simp only [Prog.bind_eq_bind, Prog.bind_assoc]
  -- the flush, when there is one, and the commit
  have hflush : ∀ o', Unwritten o' → (role = .owner ∨ ∃ d, o'.seen[0]? = some d ∧
      (1 < (owners k.groupUid d).length ∨ isOwner k.groupUid k.userUid d = false)) →
      Warrants (fun _ => True) (CommitsMember k) (Returns fun _ _ => True)
        ((whenever (target.role != role) (do
          let found ← execute (updateMemberRow target.groupUid target.userUid role)
          if found then .ret () else .raise staleDataError)).bind fun _ =>
            commit.bind fun _ => (refreshMember target.groupUid target.userUid).bind f) o' := by
    intro o' ho' hcheck
    unfold whenever
    split
    · simp only [Prog.bind_eq_bind, Prog.bind_assoc]
      apply Warrants.sql allows_returns
      rintro w hw locked d₁ - eff heff
      have hid : w.write = id := ho' w hw
      simp only [updateMemberRow] at heff
      split at heff
      · cases heff
        have hwrite : (w.andThen ⟨true, writeRole target.groupUid target.userUid role,
            [.member target.groupUid target.userUid],
            [.member target.groupUid target.userUid]⟩).write = k.written := by
          funext d
          simp only [Work.andThen, hid, MemberCall.written, hrole, h.group, h.user]
          rfl
        have hchanges : (w.andThen ⟨true, writeRole target.groupUid target.userUid role,
            [.member target.groupUid target.userUid],
            [.member target.groupUid target.userUid]⟩).changes ≠ [] := by
          simp [Work.andThen]
        refine Warrants.commit allows_returns rfl ?_ (warrants_of_quiet htail)
        rcases hcheck with rfl | ⟨d, hseen, hcount | hplain⟩
        · exact .owner hrole hwrite
        · exact .counted d hseen hcount hchanges hwrite
        · exact .plain d hseen hplain hchanges hwrite
      · cases heff
        trivial
    · exact warrants_commitQuiet ho' htail
  by_cases howner : role = .owner
  · have hskip : (target.role == .owner && role != .owner) = false := by simp [howner]
    rw [hskip]
    exact hflush o h.unwritten (.inl howner)
  · apply warrants_checked h
    · intro htarget
      simp [htarget, howner]
    · exact fun o' hcheck ho' => hflush o' ho' (.inr hcheck)

theorem warrants_removeMember {target : SpotGroupMember} {f : Unit → App α}
    (h : Target k target o) (hrole : k.role = none) (hf : (f ()).Uses Command.Quiet) :
    Warrants (fun _ => True) (CommitsMember k) (Returns fun _ _ => True)
      ((removeMember target).bind f) o := by
  unfold removeMember
  simp only [Prog.bind_eq_bind, Prog.bind_assoc]
  apply warrants_checked h
  · intro htarget
    simp [htarget]
  · rintro o' ⟨d, hseen, hcheck⟩ ho'
    apply Warrants.sql allows_returns
    rintro w hw locked d₁ - eff heff
    have hid : w.write = id := ho' w hw
    simp only [deleteMemberRow] at heff
    split at heff
    · cases heff
      have hwrite : (w.andThen ⟨(), dropMember target.groupUid target.userUid,
          [.member target.groupUid target.userUid],
          [.member target.groupUid target.userUid]⟩).write = k.written := by
        funext d
        simp only [Work.andThen, hid, MemberCall.written, hrole, h.group, h.user]
        rfl
      have hchanges : (w.andThen ⟨(), dropMember target.groupUid target.userUid,
          [.member target.groupUid target.userUid],
          [.member target.groupUid target.userUid]⟩).changes ≠ [] := by
        simp [Work.andThen]
      refine Warrants.commit allows_returns rfl ?_ (warrants_of_quiet hf)
      rcases hcheck with hcount | hplain
      · exact .counted d hseen hcount hchanges hwrite
      · exact .plain d hseen hplain hchanges hwrite
    · cases heff
      refine Warrants.commit allows_returns rfl (.quiet ?_) (warrants_of_quiet hf)
      show id ∘ w.write = id
      rw [hid]
      rfl

end Commits

/-! ## What a request has read -/

section Requests

variable {A : Db → Prop} {F : CommitFact Db RowKey Change} {o : Own Db RowKey Change} {α : Type}
  {M : α → Own Db RowKey Change → Prop} {groupUid userUid : String} {credentials : Credentials}

theorem Unwritten.saw (ho : Unwritten o) {w : Work Db RowKey Change} (hw : o.work = some w)
    (seen : List Db) (commits : List (List Change)) : Unwritten ⟨some w, seen, commits⟩ := by
  rintro w' hw'
  cases hw'
  exact ho w hw

/-- A group that is found is the one asked for. -/
theorem warrants_findGroup {f : SpotGroup → App α} (ho : Unwritten o)
    (hf : ∀ group o', group.uid = groupUid → Unwritten o' →
      Warrants A F (Returns M) (f group) o') :
    Warrants A F (Returns M) ((SpotGroups.findGroup groupUid).bind f) o := by
  unfold SpotGroups.findGroup getGroupByUid
  simp only [Prog.bind_eq_bind, Prog.bind_assoc]
  apply Warrants.read allows_returns
  rintro w hw d -
  split
  · rename_i group hgroup
    exact hf group _ (Table.find?_eq_some.1 hgroup).2 (ho.saw hw _ _)
  · trivial

/-- The caller is a member of the group, of the role at least. -/
theorem warrants_requireGroupRole {minRole : GroupRole} {f : SpotGroup × SpotGroupMember → App α}
    (ho : Unwritten o)
    (hf : ∀ group membership o', group.uid = groupUid → membership.groupUid = groupUid →
      minRole.rank ≤ membership.role.rank → Unwritten o' →
      Warrants A F (Returns M) (f (group, membership)) o') :
    Warrants A F (Returns M)
      ((SpotGroups.requireGroupRole minRole groupUid credentials).bind f) o := by
  unfold SpotGroups.requireGroupRole SpotGroups.membershipOr404 SpotGroups.requireMember
    getMembership
  simp only [Prog.bind_eq_bind, Prog.bind_assoc]
  apply warrants_findGroup ho
  intro group o₁ hgroup ho₁
  apply warrants_readOnly_bind (readOnly_getCurrentUser credentials) ho₁
  intro user o₂ ho₂
  apply Warrants.read allows_returns
  rintro w hw d -
  split
  · rename_i membership hmembership
    have hkey := (Table.find?_eq_some.1 hmembership).2
    rw [Prod.mk.injEq] at hkey
    show Warrants A F (Returns M) (Prog.bind (if membership.role.rank < minRole.rank then
      .raise (roleRequired minRole.value) else .ret (group, membership)) f) _
    split
    · trivial
    · rename_i hrank
      exact hf group membership _ hgroup (hkey.1.trans hgroup) (Nat.le_of_not_lt hrank)
        (ho₂.saw hw _ _)
  · trivial

end Requests

section Calls

variable {k : MemberCall} {o : Own Db RowKey Change} {α : Type} {group : SpotGroup}

/-- A row that a statement has met, as it is now. -/
theorem target_of_found {target : SpotGroupMember} {w : Work Db RowKey Change} {d : Db}
    {seen : List Db} {commits : List (List Change)} (hid : w.write = id)
    (hfound : d.members.find? (k.groupUid, k.userUid) = some target) :
    Target k target ⟨some w, d :: seen, commits⟩ := by
  have hkey := (Table.find?_eq_some.1 hfound).2
  rw [Prod.mk.injEq] at hkey
  refine ⟨hkey.1, hkey.2, ?_, fun w' hw' => ?_⟩
  · by_cases howner : target.role = .owner
    · exact .inl howner
    · exact .inr ⟨d, rfl, by simp [isOwner, hfound, howner]⟩
  · cases hw'
    exact hid

/-- The member that an owner asks for. -/
theorem warrants_findMember {caller : SpotGroupMember} {f : SpotGroupMember → App α}
    (hgroup : group.uid = k.groupUid) (hcaller : caller.groupUid = k.groupUid)
    (howner : GroupRole.owner.rank ≤ caller.role.rank) (ho : Unwritten o)
    (hf : ∀ target o', Target k target o' → Warrants (fun _ => True) (CommitsMember k)
      (Returns fun _ _ => True) (f target) o') :
    Warrants (fun _ => True) (CommitsMember k) (Returns fun _ _ => True)
      ((SpotGroups.findMember group caller k.userUid).bind f) o := by
  unfold SpotGroups.findMember getMembership
  simp only [Prog.bind_eq_bind, Prog.bind_assoc]
  apply Warrants.read allows_returns
  rintro w hw d -
  have hid : w.write = id := ho w hw
  rw [hid, hgroup]
  split
  · rename_i target htarget
    have hfound : d.members.find? (k.groupUid, k.userUid) = some target := htarget
    have hkey := (Table.find?_eq_some.1 hfound).2
    rw [Prod.mk.injEq] at hkey
    apply hf
    split
    · -- the caller's own row, which it has loaded as an owner
      rename_i hself
      have hrole : caller.role = .owner := by
        cases hcase : caller.role with
        | owner => rfl
        | viewer => simp [hcase, GroupRole.rank] at howner
        | contributor => simp [hcase, GroupRole.rank] at howner
        | editor => simp [hcase, GroupRole.rank] at howner
      exact ⟨hcaller, hself.symm.trans hkey.2, .inl hrole, ho.saw hw _ _⟩
    · exact target_of_found hid hfound
  · trivial

/-- The member that a MANAGER asks for. -/
theorem warrants_findMemberAdmin {f : SpotGroupMember → App α} (hgroup : group.uid = k.groupUid)
    (ho : Unwritten o) (hf : ∀ target o', Target k target o' →
      Warrants (fun _ => True) (CommitsMember k) (Returns fun _ _ => True) (f target) o') :
    Warrants (fun _ => True) (CommitsMember k) (Returns fun _ _ => True)
      ((InternalSpotGroups.findMember group k.userUid).bind f) o := by
  unfold InternalSpotGroups.findMember getMembership
  simp only [Prog.bind_eq_bind, Prog.bind_assoc]
  apply Warrants.read allows_returns
  rintro w hw d -
  have hid : w.write = id := ho w hw
  rw [hid, hgroup]
  split
  · rename_i target htarget
    exact hf target _ (target_of_found hid htarget)
  · trivial

theorem quiet_findUser (userUid : String) :
    (InternalSpotGroups.findUser userUid).Uses Command.Quiet := by
  refine Prog.Uses.bind (Prog.uses_perform trivial) fun found => ?_
  cases found <;> trivial

/-- What a request commits. -/
theorem warrants_memberCall (k : MemberCall) :
    Warrants (fun _ => True) (CommitsMember k) (Returns fun _ _ => True) k.program {} := by
  have hnew : Unwritten ({} : Own Db RowKey Change) := by
    rintro w hw
    cases hw
    rfl
  apply warrants_request
  cases k with
  | updateRole credentials groupUid userUid role =>
      simp only [MemberCall.body, SpotGroups.updateGroupMemberRole, Prog.bind_eq_bind,
        Prog.bind_assoc]
      apply warrants_requireGroupRole hnew
      intro group membership o₁ hgroup hmember hrank ho₁
      apply warrants_findMember (k := .updateRole credentials groupUid userUid role) hgroup hmember
        hrank ho₁
      intro target o₂ htarget
      exact warrants_updateMemberRole htarget rfl fun _ => trivial
  | remove credentials groupUid userUid =>
      simp only [MemberCall.body, SpotGroups.removeGroupMember, Prog.bind_eq_bind]
      apply warrants_requireGroupRole hnew
      intro group membership o₁ hgroup hmember hrank ho₁
      apply warrants_findMember (k := .remove credentials groupUid userUid) hgroup hmember hrank ho₁
      intro target o₂ htarget
      rw [← Prog.bind_ret_right (removeMember target)]
      exact warrants_removeMember htarget rfl trivial
  | adminUpdateRole credentials groupUid userUid role =>
      simp only [MemberCall.body, InternalSpotGroups.updateGroupMemberRole, Prog.bind_eq_bind,
        Prog.bind_assoc]
      apply warrants_readOnly_bind (readOnly_requireStaffRole .manager credentials) hnew
      intro staff o₁ ho₁
      apply warrants_findGroup ho₁
      intro group o₂ hgroup ho₂
      apply warrants_findMemberAdmin
        (k := .adminUpdateRole credentials groupUid userUid role) hgroup
        ho₂
      intro target o₃ htarget
      refine warrants_updateMemberRole htarget rfl fun member => ?_
      apply (quiet_findUser _).bind
      intro user
      trivial
  | adminRemove credentials groupUid userUid =>
      simp only [MemberCall.body, InternalSpotGroups.removeGroupMember, Prog.bind_eq_bind]
      apply warrants_readOnly_bind (readOnly_requireStaffRole .manager credentials) hnew
      intro staff o₁ ho₁
      apply warrants_findGroup ho₁
      intro group o₂ hgroup ho₂
      apply warrants_findMemberAdmin (k := .adminRemove credentials groupUid userUid) hgroup ho₂
      intro target o₃ htarget
      rw [← Prog.bind_ret_right (removeMember target)]
      exact warrants_removeMember htarget rfl trivial

end Calls

/-! ## All requests -/

section Pool

variable {ι : Type} [DecidableEq ι]

/-- What the request has met still holds: when its member was an owner, the owners are owners
still; when it was none, it has not become one. -/
def StillStands (k : MemberCall) (met now : Db) : Prop :=
  if isOwner k.groupUid k.userUid met = true then
    ∀ m ∈ owners k.groupUid met, isOwner k.groupUid m.userUid now = true
  else isOwner k.groupUid k.userUid now = false

instance decidableStillStands (k : MemberCall) (met now : Db) : Decidable (StillStands k met now) :=
  inferInstanceAs (Decidable (if isOwner k.groupUid k.userUid met = true then
    ∀ m ∈ owners k.groupUid met, isOwner k.groupUid m.userUid now = true
  else isOwner k.groupUid k.userUid now = false))

/-- The step commits the change or the removal of a member who gets no role of an owner, only while
what the statement before the write met still holds. -/
def OwnersStand (calls : ι → MemberCall) (i : ι) (s s' : State ι) : Prop :=
  (calls i).lowers = true → (s.tx i).work.changes ≠ [] → s'.commits i ≠ s.commits i →
    ∀ d ∈ (s.seen i)[1]?, StillStands (calls i) d s.db

instance decidableOwnersStand (calls : ι → MemberCall) (i : ι) (s s' : State ι) :
    Decidable (OwnersStand calls i s s') :=
  inferInstanceAs (Decidable ((calls i).lowers = true → (s.tx i).work.changes ≠ [] →
    s'.commits i ≠ s.commits i → ∀ d ∈ (s.seen i)[1]?, StillStands (calls i) d s.db))

/-- What was checked before the write keeps the group an owner, as long as it stands. -/
theorem StillStands.keeps {k : MemberCall} {met d : Db} {g : String} (h : StillStands k met d)
    (hcheck : 1 < (owners k.groupUid met).length ∨ isOwner k.groupUid k.userUid met = false)
    (howner : HasOwner g d) : HasOwner g (k.written d) := by
  unfold StillStands at h
  split at h
  · rename_i hmet
    have hcount : 1 < (owners k.groupUid met).length := hcheck.resolve_right (by simp [hmet])
    obtain ⟨other, hne, hother⟩ := exists_other_owner hcount k.userUid
    obtain ⟨m, hm, rfl⟩ := isOwner_iff.1 hother
    exact hasOwner_written hne (h m hm) howner
  · exact hasOwner_written_of_plain h howner

/-- One commit leaves every group an owner that has one. -/
theorem CommitsMember.keeps {calls : ι → MemberCall} {i : ι} {s s' : State ι} {g : String}
    (hfact : CommitsMember (calls i) (s.tx i).work (s.seen i) (s.commits i))
    (hok : OwnersStand calls i s s') (hdb : s'.db = (s.tx i).work.write s.db)
    (hcommits : s'.commits =
      Function.update s.commits i (s.commits i ++ [(s.tx i).work.changes]))
    (h : HasOwner g s.db) : HasOwner g s'.db := by
  have hchanged : s'.commits i ≠ s.commits i := by
    rw [hcommits, Function.update_self]
    simp
  rw [hdb]
  by_cases howner : (calls i).role = some .owner
  · cases hfact with
    | quiet hwrite => rwa [hwrite]
    | owner _ hwrite | counted _ _ _ _ hwrite | plain _ _ _ _ hwrite =>
        obtain ⟨u, hu⟩ := h
        exact ⟨u, by rw [hwrite]; exact isOwner_written_owner howner hu⟩
  · have hlowers : (calls i).lowers = true := by simpa [MemberCall.lowers] using howner
    cases hfact with
    | quiet hwrite => rwa [hwrite]
    | owner hrole _ => exact absurd hrole howner
    | counted d hseen hcount hchanges hwrite =>
        rw [hwrite]
        exact (hok hlowers hchanges hchanged d hseen).keeps (.inl hcount) h
    | plain d hseen hplain hchanges hwrite =>
        rw [hwrite]
        exact (hok hlowers hchanges hchanged d hseen).keeps (.inr hplain) h

end Pool

/-- In every run in which requests commit such changes only while the owners they met stand, a group
that has an owner has one in every committed state. -/
theorem owner_kept {ι : Type} [DecidableEq ι] {calls : ι → MemberCall}
    {c c' : Config ι Exc Command (State ι) Unit} (hidle : Idle c.state)
    (hthreads : ∀ i, c.thread i = (calls i).program) {g : String} (hstart : HasOwner g c.state.db)
    (hrun : Run (sessions (OwnersStand calls)) c c') : HasOwner g c'.state.db := by
  have hwarrant : AllWarrant (fun i => CommitsMember (calls i)) (OwnersStand calls)
      (fun _ => Returns fun _ _ => True) c := by
    apply AllWarrant.of_idle (A := fun _ => True) (fun _ _ _ _ => trivial) hidle
    intro i
    rw [hthreads i]
    exact warrants_memberCall (calls i)
  apply hwarrant.induct (J := fun d _ => HasOwner g d) ?_ hrun hstart
  intro i s s' hfact hok hdb hcommits hkept
  exact hfact.keeps hok hdb hcommits hkept

namespace Sample

/-- A group with two owners. -/
def coOwners : Db :=
  { Db.empty with
    groups := ⟨[{ uid := "trip", name := "Trip" }], List.nodup_singleton _⟩
    members := ⟨[{ groupUid := "trip", userUid := "min", role := .owner },
      { groupUid := "trip", userUid := "han", role := .owner }], by decide⟩
    users := ⟨[user "min", user "han"], by decide⟩ }

/-- Each of the two removes the other. -/
def mutualRemovals : Fin 2 → MemberCall
  | 0 => .remove (.access "min") "trip" "han"
  | 1 => .remove (.access "han") "trip" "min"

/-- A pool at its start. -/
def removing : Config (Fin 2) Exc Command (State (Fin 2)) Unit :=
  ⟨World.fresh coOwners, fun i => (mutualRemovals i).program⟩

theorem hasOwner_coOwners : HasOwner "trip" coOwners := ⟨"min", by decide⟩

end Sample

/-- One after the other: the second is refused, and the first owner stays. -/
theorem owner_kept_two : ∃ c', Run (sessions (OwnersStand Sample.mutualRemovals))
    Sample.removing c' ∧ HasOwner "trip" c'.state.db ∧
    isOwner "trip" "han" c'.state.db = false := by
  have hrun : (follow (guardExec (fun i => exec i) (OwnersStand Sample.mutualRemovals))
      (List.replicate 8 0 ++ List.replicate 4 1) Sample.removing).any (fun c =>
        isOwner "trip" "han" c.state.db = false) = true := by
    decide +kernel
  obtain ⟨c', hfollow, hremoved⟩ := (Option.any_eq_true _ _).1 hrun
  have hguarded : Run (sessions (OwnersStand Sample.mutualRemovals)) Sample.removing c' :=
    Run.of_guardExec (run_of_follow hfollow)
  exact ⟨c', hguarded, owner_kept (idle_fresh _) (fun _ => rfl) Sample.hasOwner_coOwners hguarded,
    by simpa using hremoved⟩

/-- Both count two owners before either commits: both removals are carried out. -/
theorem last_owner_lost : ∃ c', Run platform Sample.removing c' ∧
    HasOwner "trip" Sample.removing.state.db ∧
    (c'.state.db.groups.find? "trip").isSome = true ∧ ¬HasOwner "trip" c'.state.db := by
  have hrun : (follow (fun i => exec i) (List.replicate 5 0 ++ List.replicate 5 1 ++
      List.replicate 3 0 ++ List.replicate 3 1) Sample.removing).any (fun c =>
        (c.state.db.groups.find? "trip").isSome = true ∧
          owners "trip" c.state.db = []) = true := by
    decide +kernel
  obtain ⟨c', hrun', h⟩ := exists_run_of_schedule _ hrun
  obtain ⟨hgroup, hnone⟩ : (c'.state.db.groups.find? "trip").isSome = true ∧
      owners "trip" c'.state.db = [] := by simpa using h
  refine ⟨c', hrun', Sample.hasOwner_coOwners, hgroup, fun howner => ?_⟩
  exact hasOwner_iff.1 howner hnone

end Vivac
