import Vivac.Access.HiddenExistence
import Vivac.Groups.OneShotInvites
import Vivac.Lib.Mishaps

/-!
# Acceptances that fail halfway

`accept_invite` and the group branch of `consume_invite_for_signup` add the member through
`add_member`, which commits, and commit the status of the invite after it. What goes wrong between
the two commits leaves a member whose invite is still pending; what goes wrong anywhere else leaves
both or neither (`acceptance_atomic_iff`).
-/

set_option autoImplicit false

namespace Vivac

open Lib App

/-! ## Both or neither -/

/-- The user has joined the group of the invite. -/
def JoinedBy (invite : Invite) (userUid : String) (before after : Db) : Prop :=
  ∃ groupUid, invite.groupUid = some groupUid ∧ before.members.find? (groupUid, userUid) = none ∧
    (after.members.find? (groupUid, userUid)).isSome = true

/-- The user has accepted the invite. -/
def AcceptedBy (inviteUid userUid : String) (after : Db) : Prop :=
  ∃ invite, after.invites.find? inviteUid = some invite ∧ invite.status = .accepted ∧
    invite.acceptedByUid = some userUid

/-- The user has joined and the invite is accepted, or members and invites are as they were. -/
def BothOrNeither (invite : Invite) (userUid : String) (before after : Db) : Prop :=
  JoinedBy invite userUid before after ∧ AcceptedBy invite.uid userUid after ∨
    after.members = before.members ∧ after.invites = before.invites

/-! ## When a call gets as far as the new member -/

section Conditions

variable (now : Timestamp)

/-- The invite may be accepted: it is young enough, its group is not private, and the inviter owns
the group. -/
structure StillValid (invite : Invite) (groupUid : String) (d : Db) : Prop where
  young : inviteExpired now invite = false
  group : ∃ group, d.groups.find? groupUid = some group ∧ (group.visibility == .isPrivate) = false
  owner : ((d.members.find? (groupUid, invite.inviterUid)).any fun m => m.role == .owner) = true

/-- The new member can be inserted, and `after` has it. -/
structure Inserted (invite : Invite) (groupUid userUid : String) (d after : Db) : Prop where
  fresh : d.members.find? (groupUid, userUid) = none
  insert : (insertNewMember now groupUid userUid invite.groupRole invite.inviterUid).apply d =
    .ok ((), after)

/-- A call adds the user to the group of the invite. -/
structure Joins (invite : Invite) (userUid : String) (d : Db) : Prop where
  pending : invite.status = .pending
  joins : ∃ groupUid, invite.groupUid = some groupUid ∧ StillValid now invite groupUid d ∧
    ∃ after, Inserted now invite groupUid userUid d after

end Conditions

/-- The tables after the referral of a signup. -/
def afterReferral (user : User) (inviterUid : String) (d : Db) : Db :=
  if user.referredByUid != some inviterUid then rewriteUser user.uid (setReferredBy inviterUid) d
    else d

/-- The commands that the referral takes. -/
def referralCommands (user : User) (inviterUid : String) : ℕ :=
  if user.referredByUid != some inviterUid then 1 else 0

/-! ## Programs without handlers -/

section Programs

variable (now : Timestamp)

theorem endsOnError_whenever {c : Bool} {p : App Unit} (h : p.EndsOnError) :
    (whenever c p).EndsOnError := by
  unfold whenever
  split
  · exact h
  · trivial

theorem endsOnError_isGroupInviteStillValid {autoflush : App Unit} (h : autoflush.EndsOnError)
    (invite : Invite) (groupUid : String) :
    (isGroupInviteStillValid now autoflush invite groupUid).EndsOnError := by
  unfold isGroupInviteStillValid
  split
  · trivial
  · apply h.bind
    intro _
    apply (Prog.endsOnError_perform _).bind
    intro group
    cases group with
    | none => trivial
    | some group =>
        dsimp only
        split
        · trivial
        · apply (Prog.endsOnError_perform _).bind
          intro inviter
          trivial

theorem endsOnError_addMember (groupUid userUid : String) (role : Option GroupRole)
    (invitedByUid : String) : (addMember now groupUid userUid role invitedByUid).EndsOnError := by
  apply (Prog.endsOnError_perform _).bind
  intro found
  cases found with
  | some m => trivial
  | none =>
      apply (Prog.endsOnError_perform _).bind
      intro _
      apply (Prog.endsOnError_perform _).bind
      intro _
      apply (Prog.endsOnError_perform _).bind
      intro found
      cases found <;> trivial

theorem endsOnError_flushAccepted (uid userUid : String) :
    (flushAccepted now uid userUid).EndsOnError := by
  apply (Prog.endsOnError_perform _).bind
  intro found
  split <;> trivial

theorem endsOnError_acceptInvite (invite : Invite) (userUid : String) :
    (acceptInvite now invite userUid).EndsOnError := by
  unfold acceptInvite
  split
  · have hnothing : (Prog.ret () : App Unit).EndsOnError := trivial
    apply (endsOnError_isGroupInviteStillValid now hnothing invite _).bind
    intro valid
    split
    · apply (endsOnError_addMember now _ _ _ _).bind
      intro _
      apply (endsOnError_flushAccepted now _ _).bind
      intro _
      apply (Prog.endsOnError_perform _).bind
      intro _
      apply (Prog.endsOnError_perform _).bind
      intro found
      cases found <;> trivial
    · trivial
  · trivial

theorem endsOnError_flushReferral (user : User) (inviterUid : String) :
    (flushReferral user inviterUid).EndsOnError := by
  apply endsOnError_whenever
  apply (Prog.endsOnError_perform _).bind
  intro found
  split <;> trivial

theorem endsOnError_consumeInviteForSignup (inviteUid : String) (user : User) :
    (consumeInviteForSignup now inviteUid user).EndsOnError := by
  apply (Prog.endsOnError_perform _).bind
  intro found
  cases found with
  | none => trivial
  | some invite =>
      have hreferral := endsOnError_flushReferral user invite.inviterUid
      dsimp only
      split
      · trivial
      · split
        · apply hreferral.bind
          intro _
          exact Prog.endsOnError_perform _
        · apply (endsOnError_isGroupInviteStillValid now hreferral invite _).bind
          intro valid
          apply (endsOnError_whenever hreferral).bind
          intro _
          apply Prog.EndsOnError.bind
          · apply endsOnError_whenever
            apply (endsOnError_addMember now _ _ _ _).bind
            intro _
            exact endsOnError_flushAccepted now _ _
          · intro _
            exact Prog.endsOnError_perform _

end Programs

/-! ## The commands of a call by itself -/

section Walks

variable {ι : Type} [DecidableEq ι] {i : ι} {now : Timestamp} {db d d' after : Db} {invite : Invite}
  {groupUid userUid : String} {dbs : List Db}

theorem Inserted.facts (h : Inserted now invite groupUid userUid d after) :
    (after.members.find? (groupUid, userUid)).isSome = true ∧ after.invites = d.invites ∧
      after.users = d.users := by
  obtain ⟨eff, heff, -, rfl⟩ := Stmt.ok_of_apply h.insert
  unfold insertNewMember newMember at heff
  cases hrole : invite.groupRole with
  | none =>
      rw [hrole] at heff
      cases heff
  | some role =>
      rw [hrole] at heff
      simp only [insertMemberRow] at heff
      split at heff
      · cases heff
      · split at heff
        · cases heff
        · cases heff
          refine ⟨?_, rfl, rfl⟩
          exact Option.isSome_iff_exists.2 ⟨_, Table.find?_insert_self h.fresh⟩

/-- The check of an invite that is valid. -/
theorem walk_valid {autoflush : App Unit}
    (hauto : Walk i (Sees i db [] d) autoflush dbs fun r s => r = .ok () ∧ Sees i db [] d' s)
    (hvalid : StillValid now invite groupUid d') :
    Walk i (Sees i db [] d) (isGroupInviteStillValid now autoflush invite groupUid)
      (dbs ++ [db, db])
      fun r s => r = .ok true ∧ Sees i db [] d' s := by
  obtain ⟨group, hgroup, hvisible⟩ := hvalid.group
  unfold isGroupInviteStillValid
  rw [if_neg (by simp [hvalid.young])]
  apply Walk.bind_ok hauto
  refine Walk.step (Walk.read fun d : Db => d.groups.find? groupUid) ?_
  rw [hgroup]
  dsimp only
  rw [if_neg (by simp [hvisible])]
  refine Walk.step
    (Walk.read fun d : Db => d.members.find? (groupUid, invite.inviterUid)) ?_
  exact Walk.ret _ fun s hs => ⟨congrArg Except.ok hvalid.owner, hs⟩

/-- The check of an invite that is young enough, but not valid. -/
theorem walk_invalid {autoflush : App Unit}
    (hauto : Walk i (Sees i db [] d) autoflush dbs fun r s => r = .ok () ∧ Sees i db [] d' s)
    (hyoung : inviteExpired now invite = false) (hinvalid : ¬StillValid now invite groupUid d') :
    ∃ n, Walk i (Sees i db [] d) (isGroupInviteStillValid now autoflush invite groupUid)
      (dbs ++ List.replicate n db) fun r s => r = .ok false ∧ Sees i db [] d' s := by
  unfold isGroupInviteStillValid
  rw [if_neg (by simp [hyoung])]
  cases hgroup : d'.groups.find? groupUid with
  | none =>
      refine ⟨1, Walk.bind_ok hauto ?_⟩
      refine Walk.step (Walk.read fun d : Db => d.groups.find? groupUid) ?_
      rw [hgroup]
      exact Walk.ret _ fun s hs => ⟨rfl, hs⟩
  | some group =>
      cases hvisible : group.visibility == .isPrivate with
      | true =>
          refine ⟨1, Walk.bind_ok hauto ?_⟩
          refine Walk.step (Walk.read fun d : Db => d.groups.find? groupUid) ?_
          rw [hgroup]
          dsimp only
          rw [if_pos hvisible]
          exact Walk.ret _ fun s hs => ⟨rfl, hs⟩
      | false =>
          refine ⟨2, Walk.bind_ok hauto ?_⟩
          refine Walk.step (Walk.read fun d : Db => d.groups.find? groupUid) ?_
          rw [hgroup]
          dsimp only
          rw [if_neg (by simp [hvisible])]
          refine Walk.step
            (Walk.read fun d : Db => d.members.find? (groupUid, invite.inviterUid)) ?_
          have hno :
              ((d'.members.find? (groupUid, invite.inviterUid)).any fun m => m.role == .owner) =
              false := by
            rw [Bool.eq_false_iff]
            exact fun howner => hinvalid ⟨hyoung, ⟨group, hgroup, hvisible⟩, howner⟩
          exact Walk.ret _ fun s hs => ⟨congrArg Except.ok hno, hs⟩

variable (db) in
/-- A new member, committed. -/
theorem walk_addMember (h : Inserted now invite groupUid userUid d after) :
    ∃ m, Walk i (Sees i db [] d) (addMember now groupUid userUid invite.groupRole invite.inviterUid)
      [db, db, db, after] fun r s => r = .ok m ∧ Sees i after [] after s := by
  obtain ⟨m, hm⟩ := Option.isSome_iff_exists.1 h.facts.1
  refine ⟨m, ?_⟩
  refine Walk.step
    (Walk.read fun d : Db => d.members.find? (groupUid, userUid)) ?_
  rw [h.fresh]
  refine Walk.step (Walk.statement h.insert) ?_
  refine Walk.step Walk.commit ?_
  refine Walk.step
    (Walk.read fun d : Db => d.members.find? (groupUid, userUid)) ?_
  rw [hm]
  exact Walk.ret m fun s hs => ⟨rfl, hs⟩

variable (db) in
/-- No new member: what was there is untouched, and the call ends. -/
theorem walk_addMember_error (h : ∀ after, ¬Inserted now invite groupUid userUid d after) :
    ∃ n e, Walk i (Sees i db [] d)
      (addMember now groupUid userUid invite.groupRole invite.inviterUid)
      (List.replicate n db) fun r s => r = .error e ∧ s.db = db := by
  cases hfound : d.members.find? (groupUid, userUid) with
  | some m =>
      refine ⟨1, .app .spotGroupMemberAlreadyExists "Already a member of this group", ?_⟩
      refine Walk.step (Walk.read fun d : Db => d.members.find? (groupUid, userUid)) ?_
      rw [hfound]
      exact Walk.raise _ fun s hs => ⟨rfl, hs.holds.db_eq⟩
  | none =>
      cases hinsert :
        (insertNewMember now groupUid userUid invite.groupRole invite.inviterUid).apply d with
      | ok out => exact absurd ⟨hfound, hinsert⟩ (h out.2)
      | error e =>
          refine ⟨2, e, ?_⟩
          refine Walk.step (Walk.read fun d : Db => d.members.find? (groupUid, userUid)) ?_
          rw [hfound]
          exact Walk.bind_error (Walk.refused hinsert) fun s hs => ⟨rfl, hs.db_eq⟩

/-- The invite is accepted, in the session. -/
theorem walk_flushAccepted (hinvite : d.invites.find? invite.uid = some invite) :
    Walk i (Sees i db [] d) (flushAccepted now invite.uid userUid) [db]
      fun r s => r = .ok () ∧
        Sees i db [] (rewriteInvite invite.uid (setAccepted now userUid) d) s := by
  have hst : (updateInviteRow invite.uid (setAccepted now userUid)).apply d =
      .ok (true, rewriteInvite invite.uid (setAccepted now userUid) d) := by
    simp [Stmt.apply, updateInviteRow, hinvite, Except.map]
  refine Walk.step (Walk.statement hst) ?_
  exact Walk.ret () fun s hs => ⟨rfl, hs⟩

/-- The rest of a call that has added the member. -/
theorem walk_accepted (hinvite : after.invites.find? invite.uid = some invite) :
    Walk i (Sees i after [] after)
      ((flushAccepted now invite.uid userUid).bind fun _ =>
        (commit.bind fun _ => refreshInvite invite.uid))
      [after, after, rewriteInvite invite.uid (setAccepted now userUid) after]
      fun _ s => s.db = rewriteInvite invite.uid (setAccepted now userUid) after := by
  have hthere :
      ∃ v, (rewriteInvite invite.uid (setAccepted now userUid) after).invites.find? invite.uid =
      some v := by
    rw [rewriteInvite, Table.find?_rewrite, hinvite]
    exact ⟨_, rfl⟩
  obtain ⟨v, hv⟩ := hthere
  refine Walk.bind_ok (walk_flushAccepted hinvite) ?_
  refine Walk.step Walk.commit ?_
  refine Walk.step (Walk.read fun d : Db => d.invites.find? invite.uid) ?_
  rw [hv]
  exact Walk.ret v fun s hs => hs.holds.db_eq

/-- `accept_invite`, when it adds the member: five commands to the commit of the member, three to
that of the invite. -/
theorem walk_acceptInvite (hpending : invite.status = .pending) (hgroup : invite.groupUid =
    some groupUid)
    (hvalid : StillValid now invite groupUid d)
    (hinsert : Inserted now invite groupUid userUid d after)
    (hinvite : d.invites.find? invite.uid = some invite) :
    Walk i (Sees i d [] d) (acceptInvite now invite userUid)
      (List.replicate 5 d ++ (List.replicate 3 after ++
        List.replicate 1 (rewriteInvite invite.uid (setAccepted now userUid) after)))
      fun _ s => s.db = rewriteInvite invite.uid (setAccepted now userUid) after := by
  have hthere : after.invites.find? invite.uid = some invite := by rw [hinsert.facts.2.1, hinvite]
  obtain ⟨m, hmember⟩ := walk_addMember (i := i) d hinsert
  have hcheck :
      Walk i (Sees i d [] d) (isGroupInviteStillValid now (.ret ()) invite groupUid) [d, d]
      fun r s => r = .ok true ∧ Sees i d [] d s :=
        walk_valid (Walk.ret () fun s hs => ⟨rfl, hs⟩) hvalid
  have hwalk :
      Walk i (Sees i d [] d) (acceptInvite now invite userUid) ([d, d] ++ ([d, d, d, after] ++
      [after, after, rewriteInvite invite.uid (setAccepted now userUid) after]))
      fun _ s => s.db = rewriteInvite invite.uid (setAccepted now userUid) after := by
    unfold acceptInvite
    rw [hpending, hgroup]
    exact Walk.bind_ok hcheck (Walk.bind_ok hmember (walk_accepted hthere))
  exact hwalk

/-- `accept_invite`, when it does not: what was there is untouched. -/
theorem walk_acceptInvite_error (h : ¬Joins now invite userUid d) :
    ∃ n, Walk i (Sees i d [] d) (acceptInvite now invite userUid) (List.replicate n d)
      fun _ s => s.db = d := by
  unfold acceptInvite
  split
  · rename_i groupUid hpending hgroup
    have hauto : Walk i (Sees i d [] d) (.ret () : App Unit) [] fun r s => r = .ok () ∧
        Sees i d [] d s :=
      Walk.ret () fun s hs => ⟨rfl, hs⟩
    by_cases hvalid : StillValid now invite groupUid d
    · have hnot : ∀ after, ¬Inserted now invite groupUid userUid d after :=
        fun after hafter => h ⟨hpending, groupUid, hgroup, hvalid, after, hafter⟩
      obtain ⟨n, e, herror⟩ := walk_addMember_error (i := i) d hnot
      have hcheck : Walk i (Sees i d [] d) (isGroupInviteStillValid now (.ret ()) invite groupUid)
          (List.replicate 2 d) fun r s => r = .ok true ∧ Sees i d [] d s := walk_valid hauto hvalid
      refine ⟨2 + n, ?_⟩
      rw [← List.replicate_append_replicate]
      exact Walk.bind_ok hcheck (Walk.bind_error herror fun s hs => hs)
    · have hcheck :
          ∃ n, Walk i (Sees i d [] d) (isGroupInviteStillValid now (.ret ()) invite groupUid)
          (List.replicate n d) fun r s => r = .ok false ∧ Sees i d [] d s := by
        cases hyoung : inviteExpired now invite with
        | true =>
            unfold isGroupInviteStillValid
            rw [if_pos hyoung]
            exact ⟨0, Walk.ret _ fun s hs => ⟨rfl, hs⟩⟩
        | false => exact walk_invalid hauto hyoung hvalid
      obtain ⟨n, hn⟩ := hcheck
      refine ⟨n + 0, ?_⟩
      rw [← List.replicate_append_replicate]
      exact Walk.bind_ok hn (Walk.raise _ fun s hs => hs.holds.db_eq)
  · exact ⟨0, Walk.raise _ fun s hs => hs.holds.db_eq⟩

/-! ### Signups -/

variable {user : User}

variable (db) in
/-- The referral, in the session. -/
theorem walk_flushReferral (huser : (d.users.find? user.uid).isSome = true) (inviterUid : String) :
    Walk i (Sees i db [] d) (flushReferral user inviterUid)
      (List.replicate (referralCommands user inviterUid) db)
      fun r s => r = .ok () ∧ Sees i db [] (afterReferral user inviterUid d) s := by
  unfold flushReferral whenever referralCommands afterReferral
  split
  · have hst : (updateUserRow user.uid (setReferredBy inviterUid)).apply d =
        .ok (true, rewriteUser user.uid (setReferredBy inviterUid) d) := by
      simp [Stmt.apply, updateUserRow, huser, Except.map]
    refine Walk.step (Walk.statement hst) ?_
    exact Walk.ret () fun s hs => ⟨rfl, hs⟩
  · exact Walk.ret () fun s hs => ⟨rfl, hs⟩

/-- The tables are as they were, or the referral is committed. -/
def LeavesReferral (user : User) (inviterUid : String) (d : Db) (s : State ι) : Prop :=
  s.db = d ∨ s.db = afterReferral user inviterUid d

theorem afterReferral_same (user : User) (inviterUid : String) (d : Db) :
    (afterReferral user inviterUid d).members = d.members ∧
      (afterReferral user inviterUid d).invites = d.invites := by
  unfold afterReferral
  split <;> exact ⟨rfl, rfl⟩

theorem walk_skip (P : State ι → Prop) (p : App Unit) :
    Walk i P (whenever false p) [] fun r s => r = .ok () ∧ P s :=
  Walk.ret () fun _ hs => ⟨rfl, hs⟩

/-- `consume_invite_for_signup`, when it adds the member. -/
theorem walk_consumeInviteForSignup (huser : (d.users.find? user.uid).isSome = true)
    (hpending : invite.status = .pending) (hgroup : invite.groupUid = some groupUid)
    (hvalid : StillValid now invite groupUid (afterReferral user invite.inviterUid d))
    (hinsert : Inserted now invite groupUid user.uid (afterReferral user invite.inviterUid d) after)
    (hinvite : d.invites.find? invite.uid = some invite) :
    Walk i (Sees i d [] d) (consumeInviteForSignup now invite.uid user)
      (List.replicate (5 + referralCommands user invite.inviterUid + 1) d ++
        (List.replicate 3 after ++
        List.replicate 0 (rewriteInvite invite.uid (setAccepted now user.uid) after)))
      fun _ s => s.db = rewriteInvite invite.uid (setAccepted now user.uid) after := by
  have hthere : after.invites.find? invite.uid = some invite := by
    rw [hinsert.facts.2.1, (afterReferral_same user invite.inviterUid d).2, hinvite]
  obtain ⟨m, hmember⟩ := walk_addMember (i := i) d hinsert
  have hadded : Walk i (Sees i d [] (afterReferral user invite.inviterUid d))
      (whenever true (do
        let _ ← addMember now groupUid user.uid invite.groupRole invite.inviterUid
        flushAccepted now invite.uid user.uid)) ([d, d, d, after] ++ [after])
      fun r s => r = .ok () ∧
        Sees i after [] (rewriteInvite invite.uid (setAccepted now user.uid) after) s :=
    Walk.bind_ok hmember (walk_flushAccepted hthere)
  have hwalk : Walk i (Sees i d [] d) (consumeInviteForSignup now invite.uid user)
      (d :: ((List.replicate (referralCommands user invite.inviterUid) d ++ [d, d]) ++
        ([] ++ (([d, d, d, after] ++ [after]) ++ [after]))))
      fun _ s => s.db = rewriteInvite invite.uid (setAccepted now user.uid) after := by
    unfold consumeInviteForSignup
    refine Walk.step (Walk.read fun d : Db => d.invites.find? invite.uid) ?_
    rw [hinvite]
    dsimp only
    rw [if_neg (by simp [hpending]), hgroup]
    dsimp only
    refine Walk.bind_ok (walk_valid (walk_flushReferral d huser invite.inviterUid) hvalid) ?_
    rw [hvalid.young]
    refine Walk.bind_ok (walk_skip _ _) ?_
    refine Walk.bind_ok hadded ?_
    exact Walk.commit.conseq (fun _ hs => hs) fun r s hs => hs.2.holds.db_eq
  have hlist : d :: ((List.replicate (referralCommands user invite.inviterUid) d ++ [d, d]) ++
      ([] ++ (([d, d, d, after] ++ [after]) ++ [after]))) =
      List.replicate (5 + referralCommands user invite.inviterUid + 1) d ++
        (List.replicate 3 after ++
        List.replicate 0 (rewriteInvite invite.uid (setAccepted now user.uid) after)) := by
    unfold referralCommands
    split <;> rfl
  rw [← hlist]
  exact hwalk

/-- `consume_invite_for_signup`, when it does not. -/
theorem walk_consumeInviteForSignup_other (huser : (d.users.find? user.uid).isSome = true)
    (h : ¬Joins now invite user.uid (afterReferral user invite.inviterUid d))
    (hinvite : d.invites.find? invite.uid = some invite) :
    ∃ n, Walk i (Sees i d [] d) (consumeInviteForSignup now invite.uid user) (List.replicate n d)
      fun _ s => LeavesReferral user invite.inviterUid d s := by
  have hload : Walk i (Sees i d [] d) (getInviteByUid invite.uid) [d]
      fun r s => r = .ok (some invite) ∧ Sees i d [] d s := by
    rw [← hinvite]
    exact Walk.read fun d : Db => d.invites.find? invite.uid
  have hreferral := walk_flushReferral (i := i) d huser invite.inviterUid
  have hcommit : Walk i (Sees i d [] (afterReferral user invite.inviterUid d)) commit [d]
      fun _ s => LeavesReferral user invite.inviterUid d s :=
    Walk.commit.conseq (fun _ hs => hs) fun r s hs => .inr hs.2.holds.db_eq
  unfold consumeInviteForSignup
  cases hpending : invite.status != .pending with
  | true =>
      refine ⟨1, Walk.bind_ok hload ?_⟩
      dsimp only
      rw [if_pos hpending]
      exact Walk.ret () fun s hs => .inl hs.holds.db_eq
  | false =>
      have hnot : ¬(invite.status != .pending) = true := by simp [hpending]
      cases hgroup : invite.groupUid with
      | none =>
          apply Walk.to_replicate
            ([d] ++ (List.replicate (referralCommands user invite.inviterUid) d ++ [d]))
            (by grind)
          refine Walk.bind_ok hload ?_
          dsimp only
          rw [if_neg hnot, hgroup]
          exact Walk.bind_ok hreferral hcommit
      | some groupUid =>
          cases hyoung : inviteExpired now invite with
          | true =>
              have hcheck : Walk i (Sees i d [] d) (isGroupInviteStillValid now
                  (flushReferral user invite.inviterUid) invite groupUid) []
                  fun r s => r = .ok false ∧ Sees i d [] d s := by
                unfold isGroupInviteStillValid
                rw [if_pos hyoung]
                exact Walk.ret _ fun s hs => ⟨rfl, hs⟩
              apply Walk.to_replicate
                ([d] ++ ([] ++ (List.replicate (referralCommands user invite.inviterUid) d ++
                ([] ++ [d])))) (by grind)
              refine Walk.bind_ok hload ?_
              dsimp only
              rw [if_neg hnot, hgroup]
              dsimp only
              rw [hyoung]
              exact Walk.bind_ok hcheck
                (Walk.bind_ok hreferral (Walk.bind_ok (walk_skip _ _) hcommit))
          | false =>
              by_cases hvalid :
                StillValid now invite groupUid (afterReferral user invite.inviterUid d)
              -- the invite stands, so only the INSERT of the membership can have been refused
              · have hnew : ∀ after, ¬Inserted now invite groupUid user.uid
                    (afterReferral user invite.inviterUid d) after := by
                  intro after hafter
                  have hstatus : invite.status = .pending := by simpa using hpending
                  exact h ⟨hstatus, groupUid, hgroup, hvalid, after, hafter⟩
                obtain ⟨n, e, herror⟩ := walk_addMember_error (i := i) d hnew
                have hended : Walk i (Sees i d [] (afterReferral user invite.inviterUid d))
                    (whenever true (do
                      let _ ← addMember now groupUid user.uid invite.groupRole invite.inviterUid
                      flushAccepted now invite.uid user.uid)) (List.replicate n d)
                    fun r s => r = .error e ∧ s.db = d :=
                  Walk.bind_error herror fun s hs => ⟨rfl, hs⟩
                apply Walk.to_replicate
                  ([d] ++ ((List.replicate (referralCommands user invite.inviterUid) d ++
                  [d, d]) ++ ([] ++ List.replicate n d))) (by grind)
                refine Walk.bind_ok hload ?_
                dsimp only
                rw [if_neg hnot, hgroup]
                dsimp only
                rw [hyoung]
                exact Walk.bind_ok (walk_valid hreferral hvalid) (Walk.bind_ok (walk_skip _ _)
                  (Walk.bind_error hended fun s hs => .inl hs))
              -- the invite does not stand any more: the check flushes the referral and the call
              -- skips the rest
              · obtain ⟨n, hcheck⟩ := walk_invalid hreferral hyoung hvalid
                apply Walk.to_replicate
                  ([d] ++ ((List.replicate (referralCommands user invite.inviterUid) d ++
                  List.replicate n d) ++ ([] ++ ([] ++ [d])))) (by grind)
                refine Walk.bind_ok hload ?_
                dsimp only
                rw [if_neg hnot, hgroup]
                dsimp only
                rw [hyoung]
                exact Walk.bind_ok hcheck
                  (Walk.bind_ok (walk_skip _ _) (Walk.bind_ok (walk_skip _ _) hcommit))

end Walks

/-! ## What is left -/

section Left

variable {now : Timestamp} {d after : Db} {invite : Invite} {groupUid userUid : String}

/-- After the second commit there are both. -/
theorem bothOrNeither_accepted (hgroup : invite.groupUid = some groupUid)
    (hfresh : d.members.find? (groupUid, userUid) = none)
    (hjoined : (after.members.find? (groupUid, userUid)).isSome = true)
    (hinvite : after.invites.find? invite.uid = some invite) :
    BothOrNeither invite userUid d (rewriteInvite invite.uid (setAccepted now userUid) after) := by
  refine .inl ⟨⟨groupUid, hgroup, hfresh, hjoined⟩, ?_⟩
  refine ⟨{ invite with
    status := .accepted
    acceptedByUid := some userUid
    acceptedAt := some now }, ?_, rfl, rfl⟩
  rw [rewriteInvite, Table.find?_rewrite, hinvite, Option.map_some, if_pos (beq_self_eq_true _)]
  rfl

/-- Between the two commits there is a member, and a pending invite. -/
theorem not_bothOrNeither (hfresh : d.members.find? (groupUid, userUid) = none)
    (hjoined : (after.members.find? (groupUid, userUid)).isSome = true)
    (hinvite : after.invites.find? invite.uid = some invite) (hpending : invite.status = .pending) :
    ¬BothOrNeither invite userUid d after := by
  rintro (⟨-, accepted, haccepted, hstatus, -⟩ | ⟨hmembers, -⟩)
  · rw [hinvite] at haccepted
    cases haccepted
    rw [hpending] at hstatus
    cases hstatus
  · rw [hmembers, hfresh] at hjoined
    cases hjoined

/-- With two commits, the first at command `a` and the second `b + 1` commands later. -/
theorem bothOrNeither_iff {plan : ℕ → Option (Mishap Exc)} {a b c : ℕ}
    (hgroup : invite.groupUid = some groupUid) (hfresh : d.members.find? (groupUid, userUid) = none)
    (hjoined : (after.members.find? (groupUid, userUid)).isSome = true)
    (hinvite : after.invites.find? invite.uid = some invite) (hpending : invite.status = .pending)
    {left : Db}
    (hleft : left = leftOf plan 0 (List.replicate (a + 1) d ++ (List.replicate (b + 1) after ++
      List.replicate c (rewriteInvite invite.uid (setAccepted now userUid) after)))
      (rewriteInvite invite.uid (setAccepted now userUid) after)) :
    BothOrNeither invite userUid d left ↔ (Reaches plan a → Reaches plan (a + 1 + b)) := by
  obtain ⟨hbefore, hbetween, hafter⟩ := leftOf_two_commits plan (a := a) (b := b) (c := c)
    (x := d) (y := after) (z := rewriteInvite invite.uid (setAccepted now userUid) after)
  rw [hleft]
  by_cases hsecond : Reaches plan (a + 1 + b)
  · rw [hafter hsecond]
    exact iff_of_true (bothOrNeither_accepted hgroup hfresh hjoined hinvite) fun _ => hsecond
  · by_cases hfirst : Reaches plan a
    · rw [hbetween hfirst hsecond]
      exact iff_of_false (not_bothOrNeither hfresh hjoined hinvite hpending) fun h =>
        hsecond (h hfirst)
    · rw [hbefore hfirst]
      exact iff_of_true (.inr ⟨rfl, rfl⟩) fun h => absurd h hfirst

end Left

variable {ι : Type} [DecidableEq ι]

/-- Whatever goes wrong with an acceptance, and wherever: it leaves both or neither exactly when it
adds no member, or the commit of the invite is carried out if that of the member is. -/
theorem acceptance_atomic_iff (now : Timestamp) {i : ι} {d : Db} {s : State ι}
    (hs : Sees i d [] d s)
    {invite : Invite} (hinvite : d.invites.find? invite.uid = some invite)
    (plan : ℕ → Option (Mishap Exc)) :
    (∀ userUid, ∃ out t, runStruck i plan 0 (acceptInvite now invite userUid) s = some (out, t) ∧
      (BothOrNeither invite userUid d t.db ↔
        (Joins now invite userUid d → Reaches plan 4 → Reaches plan 7))) ∧
    ∀ user : User, (d.users.find? user.uid).isSome = true →
      ∃ out t, runStruck i plan 0 (consumeInviteForSignup now invite.uid user) s = some (out, t) ∧
        (BothOrNeither invite user.uid d t.db ↔
          (Joins now invite user.uid (afterReferral user invite.inviterUid d) →
            Reaches plan (5 + referralCommands user invite.inviterUid) →
              Reaches plan (8 + referralCommands user invite.inviterUid))) := by
  constructor
  · intro userUid
    have hends := endsOnError_acceptInvite now invite userUid
    by_cases hjoins : Joins now invite userUid d
    · obtain ⟨groupUid, hgroup, hvalid, after, hinsert⟩ := hjoins.joins
      obtain ⟨r, s', hwalk, hdb⟩ :=
          walk_acceptInvite hjoins.pending hgroup hvalid hinsert hinvite s hs
      obtain ⟨out, t, hrun, hleft⟩ := committed_of_struck plan (n := 0) hends hwalk
      rw [hdb] at hleft
      refine ⟨out, t, hrun, ?_⟩
      rw [bothOrNeither_iff hgroup hinsert.fresh hinsert.facts.1
        (by rw [hinsert.facts.2.1, hinvite])
        hjoins.pending hleft, forall_prop_of_true hjoins]
    · obtain ⟨n, hn⟩ := walk_acceptInvite_error (i := i) hjoins
      obtain ⟨r, s', hwalk, hdb⟩ := hn s hs
      obtain ⟨out, t, hrun, hleft⟩ := committed_of_struck plan (n := 0) hends hwalk
      rw [hdb, leftOf_replicate] at hleft
      refine ⟨out, t, hrun, ?_⟩
      rw [hleft]
      exact iff_of_true (.inr ⟨rfl, rfl⟩) fun h => absurd h hjoins
  · intro user huser
    have hends := endsOnError_consumeInviteForSignup now invite.uid user
    have hsame := afterReferral_same user invite.inviterUid d
    by_cases hjoins : Joins now invite user.uid (afterReferral user invite.inviterUid d)
    · obtain ⟨groupUid, hgroup, hvalid, after, hinsert⟩ := hjoins.joins
      obtain ⟨r, s', hwalk, hdb⟩ :=
        walk_consumeInviteForSignup huser hjoins.pending hgroup hvalid hinsert hinvite s hs
      obtain ⟨out, t, hrun, hleft⟩ := committed_of_struck plan (n := 0) hends hwalk
      rw [hdb] at hleft
      refine ⟨out, t, hrun, ?_⟩
      have hfresh : d.members.find? (groupUid, user.uid) = none := by rw [← hsame.1, hinsert.fresh]
      have hsecond : 5 + referralCommands user invite.inviterUid + 1 + 2 =
          8 + referralCommands user invite.inviterUid := by omega
      rw [bothOrNeither_iff hgroup hfresh hinsert.facts.1
        (by rw [hinsert.facts.2.1, hsame.2, hinvite]) hjoins.pending hleft, hsecond,
        forall_prop_of_true hjoins]
    · obtain ⟨n, hn⟩ := walk_consumeInviteForSignup_other (i := i) huser hjoins hinvite
      obtain ⟨r, s', hwalk, hdb⟩ := hn s hs
      obtain ⟨out, t, hrun, hleft⟩ := committed_of_struck plan (n := 0) hends hwalk
      refine ⟨out, t, hrun, ?_⟩
      have hneither : t.db.members = d.members ∧ t.db.invites = d.invites := by
        rw [hleft]
        rcases leftOf_replicate_or plan (n := 0) (c := n) (x := d) (z := s'.db) with h | h <;>
          rw [h]
        · exact ⟨rfl, rfl⟩
        · rcases hdb with hdb | hdb <;> rw [hdb]
          · exact ⟨rfl, rfl⟩
          · exact hsame
      exact iff_of_true (.inr hneither) fun h => absurd h hjoins

/-- The process dies after the commit of the member: the member stays, and the invite is pending. -/
theorem acceptance_cut_in_two : ∃ (plan : ℕ → Option (Mishap Exc))
    (out : Option (Except Exc Invite)) (t : State Unit),
    runStruck () plan 0 (acceptInvite 0 Sample.groupInvite "a") (World.fresh Sample.oneInvite) =
      some (out, t) ∧ ¬BothOrNeither Sample.groupInvite "a" Sample.oneInvite t.db := by
  have hrun : (runStruck () (fun n => if n = 5 then some .death else none) 0
      (acceptInvite 0 Sample.groupInvite "a") (World.fresh Sample.oneInvite : State Unit)).map
      (fun x => ((x.2.db.members.find? ("g", "a")).isSome,
        (x.2.db.invites.find? "v").map Invite.status)) = some (true, some .pending) := by
    decide +kernel
  obtain ⟨⟨out, t⟩, hrun, hpair⟩ := Option.map_eq_some_iff.1 hrun
  obtain ⟨hjoined, hstatus⟩ := Prod.mk.inj hpair
  refine ⟨_, out, t, hrun, ?_⟩
  rintro (⟨-, accepted, haccepted, hnot, -⟩ | ⟨hmembers, -⟩)
  · have hpending : (t.db.invites.find? Sample.groupInvite.uid).map Invite.status =
        some .pending := hstatus
    rw [haccepted, Option.map_some, hnot] at hpending
    cases hpending
  · rw [hmembers] at hjoined
    revert hjoined
    decide

/-- Nothing goes wrong: the user joins, and the invite is accepted. -/
theorem acceptance_atomic_calm : ∃ (out : Option (Except Exc Invite)) (t : State Unit),
    runStruck () (fun _ => none) 0 (acceptInvite 0 Sample.groupInvite "a")
      (World.fresh Sample.oneInvite) = some (out, t) ∧
      BothOrNeither Sample.groupInvite "a" Sample.oneInvite t.db := by
  have hinvite : Sample.oneInvite.invites.find? Sample.groupInvite.uid = some Sample.groupInvite :=
      rfl
  obtain ⟨out, t, hrun, hiff⟩ :=
    (acceptance_atomic_iff 0 (Access.sees_fresh Sample.oneInvite) hinvite fun _ => none).1 "a"
  exact ⟨out, t, hrun, hiff.2 fun _ _ => ⟨fun _ _ => rfl, fun m hm => by cases hm⟩⟩

end Vivac
