import Vivac.Groups.LoneActs

/-!
# The government of groups

Every request about groups and invites, run by itself, is one act with the authority it takes
(`TimedGroupCall.Serves.act`). So in every run of requests one after another each group keeps an
owner, and nobody adds, changes or removes members, deletes a group or edits one without the right
to (`groups_governed`).
-/

set_option autoImplicit false

namespace Vivac

open Lib App

/-! ## Every request is one act -/

section Requests

variable {cfg : Settings} {be : Backend} {db : Db} {x : TimedGroupCall}

theorem readOnly_findUser (userUid : String) : ReadOnly (InternalSpotGroups.findUser userUid) := by
  apply (ReadOnly.select _).bind
  intro found
  cases found with
  | none => exact .raise _
  | some user => exact .ret _

theorem readOnly_findPublishedSpot (cfg : Settings) (spotUid : String) :
    ReadOnly (SpotGroups.findPublishedSpot cfg spotUid) := by
  apply ReadOnly.bind
  · unfold getSpotByUid
    split
    · exact (ReadOnly.ofExcept _).bind fun _ => ReadOnly.select _
    · exact ReadOnly.select _
  · intro found
    cases found with
    | none => exact .raise _
    | some spot => exact .ret _

theorem readOnly_findLiveSpot (cfg : Settings) (spotUid : String) :
    ReadOnly (InternalSpotGroups.findLiveSpot cfg spotUid) := by
  refine ReadOnly.bind (ReadOnly.select _) fun found => ?_
  cases found with
  | none => exact .raise _
  | some spot =>
      dsimp only
      split
      · exact .ret _
      · exact .raise _

/-- What a program has read, when nothing is known of it. -/
theorem hasRead_readOnly {ι : Type} [DecidableEq ι] {i : ι} {α : Type} {p : App α}
    (h : ReadOnly p) : Lone i (Sees i db [] db) p (HasRead i db fun _ => True) :=
  (lone_readOnly h).conseq (fun _ hs => hs) fun r s hs => by
    cases r with
    | ok a => exact ⟨trivial, hs⟩
    | error e => exact hs.holds

/-- A request about one member is an act on it. -/
theorem loneAct_memberCall {q : GroupRequest} (k : MemberCall)
    (hactor : q.actor = k.credentials.userUid) : LoneAct () q db k.body := by
  cases k with
  | updateRole credentials groupUid userUid role =>
      simp only [MemberCall.body, SpotGroups.updateGroupMemberRole, Prog.bind_eq_bind,
        Prog.bind_assoc]
      apply loneAct_read_bind lone_requireGroupRole
      rintro ⟨group, caller⟩ ⟨-, huid, hcaller, hrank⟩
      apply loneAct_read_bind (lone_findMember huid hcaller.found)
      intro target htarget
      refine loneAct_updateMemberRole (k := .updateRole credentials groupUid userUid role) ?_ rfl
        htarget fun m => .ret _
      rw [hactor]
      exact hcaller.governs hrank
  | remove credentials groupUid userUid =>
      apply loneAct_read_bind lone_requireGroupRole
      rintro ⟨group, caller⟩ ⟨-, huid, hcaller, hrank⟩
      apply loneAct_read_bind (lone_findMember huid hcaller.found)
      intro target htarget
      refine loneAct_removeMember (k := .remove credentials groupUid userUid) ?_ rfl htarget
      rw [hactor]
      exact hcaller.governs hrank
  | adminUpdateRole credentials groupUid userUid role =>
      simp only [MemberCall.body, InternalSpotGroups.updateGroupMemberRole, Prog.bind_eq_bind,
        Prog.bind_assoc]
      apply loneAct_read_bind lone_requireStaffRole
      rintro staff ⟨hcaller, hrank⟩
      apply loneAct_read_bind lone_findGroup
      rintro group ⟨-, huid⟩
      apply loneAct_read_bind (lone_findMemberAdmin huid)
      intro target htarget
      refine loneAct_updateMemberRole
        (k := .adminUpdateRole credentials groupUid userUid role) ?_ rfl
        htarget fun m => (readOnly_findUser _).bind fun user => .ret _
      rw [hactor]
      exact hcaller.governs hrank _
  | adminRemove credentials groupUid userUid =>
      apply loneAct_read_bind lone_requireStaffRole
      rintro staff ⟨hcaller, hrank⟩
      apply loneAct_read_bind lone_findGroup
      rintro group ⟨-, huid⟩
      apply loneAct_read_bind (lone_findMemberAdmin huid)
      intro target htarget
      refine loneAct_removeMember (k := .adminRemove credentials groupUid userUid) ?_ rfl htarget
      rw [hactor]
      exact hcaller.governs hrank _

section Consuming

variable (cfg be) (now : Timestamp) (db : Db)

/-- The acceptance of an invite, and its refusals. -/
theorem lone_acceptBody (credentials : Credentials) (inviteUid : String) :
    Lone () (Sees () db [] db) ((GroupCall.consume (.accept credentials inviteUid)).body cfg be now)
      fun r s =>
        ConsumeAct (TimedGroupCall.request ⟨now, .consume (.accept credentials inviteUid)⟩) db
        s.db ∧ ∀ e, r = .error e → s.db = db := by
  have hstays : ∀ (r : Except Exc Unit) (s : State Unit), Holds () db [] s →
      ConsumeAct (TimedGroupCall.request ⟨now, .consume (.accept credentials inviteUid)⟩) db s.db ∧
        ∀ e, r = .error e → s.db = db := by
    intro r s hs
    rw [hs.db_eq]
    exact ⟨.inl (.refl db), fun _ _ => rfl⟩
  simp only [GroupCall.body, Invites.acceptInvite, Prog.bind_eq_bind, Prog.bind_assoc]
  apply lone_read_bind lone_caller _ fun e s hs => hstays _ s hs
  intro user huser
  apply Lone.bind_ok (Lone.read fun d : Db => d.invites.find? inviteUid)
  cases hinvite : db.invites.find? inviteUid with
  | none => exact Lone.raise _ fun s hs => hstays _ s hs.holds
  | some invite =>
      obtain rfl : invite.uid = inviteUid := (Table.find?_eq_some.1 hinvite).2
      refine Lone.bind _ (lone_acceptInvite
        (q := ⟨now, credentials.userUid, some invite.uid, none⟩) rfl huser.named hinvite)
        (fun _ => Lone.ret _ fun s hs => ⟨hs.1, fun e he => by cases he⟩) fun e s hs => ?_
      exact ⟨hs.1, fun e' he => hs.2 e rfl⟩

theorem lone_signupBody (uid : String) (nicknames : ℕ → String) (info : Option GoogleInfo)
    (inviteUid : Option String) :
    Lone () (Sees () db [] db)
      ((GroupCall.consume (.signup uid nicknames info inviteUid)).body cfg be now) fun _ s =>
        ConsumeAct
          (TimedGroupCall.request ⟨now, .consume (.signup uid nicknames info inviteUid)⟩) db
          s.db :=
  Lone.bind (fun _ s => ConsumeAct _ db s.db)
    (lone_googleLogin (q := ⟨now, some uid, inviteUid.filter (· != ""), none⟩) rfl rfl)
    (fun _ => Lone.ret _ fun _ hs => hs) fun _ _ hs => hs

end Consuming

/-- Every request is one act, with the authority that it takes. -/
theorem loneAct_body (cfg : Settings) (be : Backend) (x : TimedGroupCall) (db : Db) :
    LoneAct () x.request db (x.call.body cfg be x.now) := by
  obtain ⟨now, call⟩ := x
  cases call with
  | read r => exact loneAct_readOnly (r.readOnly_body be)
  | create credentials groupUid name description visibility =>
      simp only [GroupCall.body, SpotGroups.createGroup, Prog.bind_eq_bind, Prog.bind_assoc]
      apply loneAct_read_bind lone_caller
      intro user huser
      exact loneAct_createGroup huser.named fun g => (readOnly_toDetail g _).bind fun _ => .ret _
  | update credentials groupUid data =>
      simp only [GroupCall.body, SpotGroups.updateGroup, Prog.bind_eq_bind, Prog.bind_assoc]
      apply loneAct_read_bind lone_requireGroupRole
      rintro ⟨group, caller⟩ ⟨-, huid, hcaller, hrank⟩
      apply loneAct_updateGroup ?_ fun g => (readOnly_toDetail g _).bind fun _ => .ret _
      refine ⟨caller.userUid, hcaller.named, .inl ?_⟩
      rw [isMemberOf, huid, hcaller.found, Option.any_some]
      exact decide_eq_true hrank
  | delete credentials groupUid =>
      apply loneAct_read_bind lone_requireGroupRole
      rintro ⟨group, caller⟩ ⟨-, huid, hcaller, hrank⟩
      apply loneAct_deleteGroup
      rw [huid]
      exact hcaller.governs hrank
  | addSpot credentials groupUid spotUid =>
      simp only [GroupCall.body, SpotGroups.addGroupSpot, Prog.bind_eq_bind, Prog.bind_assoc]
      apply loneAct_read_bind lone_requireGroupRole
      rintro ⟨group, caller⟩ -
      apply loneAct_read_bind (hasRead_readOnly (readOnly_findPublishedSpot cfg spotUid))
      intro spot _
      apply loneAct_addSpot
      intro item
      exact (readOnly_getThumbnailsBySpots _).bind fun _ => .ret _
  | removeSpot credentials groupUid spotUid =>
      apply loneAct_read_bind lone_requireGroupRole
      rintro ⟨group, caller⟩ -
      apply loneAct_removeSpot
      intro removed
      cases removed with
      | true => exact .ret _
      | false => exact .raise _
  | addMember credentials groupUid userUid role =>
      simp only [GroupCall.body, SpotGroups.inviteGroupMember, Prog.bind_eq_bind, Prog.bind_assoc]
      apply loneAct_read_bind lone_requireGroupRole
      rintro ⟨group, caller⟩ ⟨-, huid, hcaller, hrank⟩
      split
      · exact Lone.raise _ fun s hs => stays_of_holds hs.holds
      · simp only [Prog.bind_assoc]
        apply Lone.bind_ok (Lone.read fun d : Db => d.users.find? userUid)
        cases db.users.find? userUid with
        | none => exact Lone.raise _ fun s hs => stays_of_holds hs.holds
        | some target =>
            apply loneAct_addMember ?_ fun m => .ret _
            rw [huid]
            exact hcaller.governs hrank
  | member k => exact loneAct_memberCall k rfl
  | adminCreate credentials groupUid name description visibility =>
      simp only [GroupCall.body, InternalSpotGroups.createGroup, Prog.bind_eq_bind, Prog.bind_assoc]
      apply loneAct_read_bind lone_requireStaff
      rintro staff ⟨hcaller, -⟩
      exact loneAct_createGroup hcaller.named fun g =>
        (readOnly_toAdminDetail g).bind fun _ => .ret _
  | adminUpdate credentials groupUid data =>
      simp only [GroupCall.body, InternalSpotGroups.updateGroup, Prog.bind_eq_bind, Prog.bind_assoc]
      apply loneAct_read_bind lone_requireStaff
      rintro staff ⟨hcaller, hstaff⟩
      apply loneAct_read_bind lone_findGroup
      rintro group ⟨-, huid⟩
      apply loneAct_updateGroup ?_ fun g => (readOnly_toAdminDetail g).bind fun _ => .ret _
      exact ⟨staff.uid, hcaller.named, .inr (isStaffOf_staff hcaller.found hstaff)⟩
  | adminDelete credentials groupUid =>
      apply loneAct_read_bind lone_requireStaffRole
      rintro staff ⟨hcaller, hrank⟩
      apply loneAct_read_bind lone_findGroup
      rintro group ⟨-, huid⟩
      exact loneAct_deleteGroup (hcaller.governs hrank _)
  | adminAddMember credentials groupUid userUid role =>
      simp only [GroupCall.body, InternalSpotGroups.addGroupMember, Prog.bind_eq_bind,
        Prog.bind_assoc]
      apply loneAct_read_bind lone_requireStaffRole
      rintro staff ⟨hcaller, hrank⟩
      apply loneAct_read_bind lone_findGroup
      rintro group ⟨-, huid⟩
      apply loneAct_read_bind (hasRead_readOnly (readOnly_findUser userUid))
      intro target _
      exact loneAct_addMember (hcaller.governs hrank _) fun m => .ret _
  | adminAddSpot credentials groupUid spotUid =>
      simp only [GroupCall.body, InternalSpotGroups.addGroupSpot, Prog.bind_eq_bind,
        Prog.bind_assoc]
      apply loneAct_read_bind lone_requireStaff
      rintro staff -
      apply loneAct_read_bind lone_findGroup
      rintro group -
      apply loneAct_read_bind (hasRead_readOnly (readOnly_findLiveSpot cfg spotUid))
      intro spot _
      apply loneAct_addSpot
      intro item
      exact (readOnly_getThumbnailsBySpots _).bind fun _ => .ret _
  | adminRemoveSpot credentials groupUid spotUid =>
      apply loneAct_read_bind lone_requireStaff
      rintro staff -
      apply loneAct_read_bind lone_findGroup
      rintro group -
      apply loneAct_removeSpot
      intro removed
      cases removed with
      | true => exact .ret _
      | false => exact .raise _
  | createInvite peer credentials inviteUid payload =>
      simp only [GroupCall.body, Invites.createInvite, withRateLimit, Prog.bind_eq_bind,
        Prog.bind_assoc]
      apply loneAct_readOnly_bind (readOnly_checkRateLimit _ _ _)
      intro _
      apply loneAct_read_bind lone_caller
      intro user huser
      cases hgroup : payload.groupUid with
      | none =>
          refine loneAct_createInvite rfl huser.named (fun g hg => ?_) fun v => .ret _
          cases hg
      | some groupUid =>
          dsimp only
          simp only [Prog.bind_assoc]
          apply loneAct_read_bind lone_checkInviter
          intro _ howner
          refine loneAct_createInvite rfl huser.named (fun g hg => ?_) fun v => .ret _
          cases hg
          exact howner
  | consume k =>
      refine Lone.conseq (Q := fun _ s => ConsumeAct _ db s.db) ?_ (fun _ hs => hs)
        fun _ _ hs => hs.act
      cases k with
      | accept credentials inviteUid =>
          exact (lone_acceptBody cfg be now db credentials inviteUid).conseq (fun _ hs => hs)
            fun _ _ hs => hs.1
      | signup uid nicknames info inviteUid =>
          exact lone_signupBody cfg be now db uid nicknames info inviteUid
end Requests

theorem TimedGroupCall.Serves.act {cfg : Settings} {be : Backend} {x : TimedGroupCall}
    {r : Except Exc Unit} {s s' : State Unit} (h : x.Serves cfg be r s s') (hs : Between s) :
    GroupAct x.request s.db s'.db := by
  obtain ⟨r', s'', hrun, -, hact⟩ := lone_withSession (Q := fun _ d => GroupAct x.request s.db d)
    (loneAct_body cfg be x s.db) s hs.sees
  have hsame : some (r', s'') = some (r, s') := hrun.symm.trans h
  cases hsame
  exact hact

/-! ## Runs -/

/-- In every run of requests one after another, every group has an owner, and nobody has two
memberships of a group. A request adds, changes or removes a member only if its caller is an owner
of the group or a MANAGER at least, but for a caller who joins by an owner's invite or creates the
group; only these delete a group, and only an EDITOR at least or staff edits one. -/
theorem groups_governed {cfg : Settings} {be : Backend} {xs : List TimedGroupCall}
    {x : TimedGroupCall} {s s₁ s₂ : State Unit} (hs : Between s) (howned : EveryGroupOwned s.db)
    (hrun : Turns (TimedGroupCall.Served cfg be) xs s s₁) (hx : x.Served cfg be s₁ s₂) :
    EveryGroupOwned s₁.db ∧ EveryGroupOwned s₂.db ∧
      (∀ g u, (s₂.db.members.select fun m => m.groupUid == g && m.userUid == u).length ≤ 1) ∧
      Governed x.call.actor s₁.db s₂.db := by
  obtain ⟨hbetween, hbefore⟩ : Between s₁ ∧ EveryGroupOwned s₁.db := by
    refine hrun.invariant (I := fun t => Between t ∧ EveryGroupOwned t.db) ?_ ⟨hs, howned⟩
    rintro y - a b ⟨r, hserves⟩ ⟨ha, howned⟩
    exact ⟨hserves.between, (hserves.act ha).owned howned⟩
  obtain ⟨r, hserves⟩ := hx
  have hact := hserves.act hbetween
  refine ⟨hbefore, hact.owned hbefore, fun g u => ?_, hact.governed⟩
  have hkey : ∀ m : SpotGroupMember, (m.groupUid == g && m.userUid == u) = true ↔
      (m.groupUid, m.userUid) = (g, u) := by
    intro m
    simp
  rw [Table.select_eq_find? hkey]
  cases s₂.db.members.find? (g, u) <;> simp

namespace Sample

/-- Two users, and no group. -/
def founders : Db :=
  { Db.empty with users := ⟨[user "founder", user "guest"], by decide⟩ }

/-- A user creates a group. -/
def founding : TimedGroupCall :=
  ⟨0, .create (.access "founder") "club" "Club" none .inviteOnly⟩

/-- Its owner makes an invite into it. -/
def inviting : TimedGroupCall :=
  ⟨1, .createInvite {} (.access "founder") "card"
    { groupUid := some "club"
      groupRole := some .viewer }⟩

/-- Another user joins through it. -/
def joining : TimedGroupCall := ⟨2, .consume (.accept (.access "guest") "card")⟩

/-- The state after a request by itself. -/
def afterGroupCall (x : TimedGroupCall) (s : State Unit) : Option (State Unit) :=
  (runAlone (fun i => exec i) () (x.call.program settings backend x.now) s).map Prod.snd

theorem served_of_after {x : TimedGroupCall} {s s' : State Unit}
    (h : afterGroupCall x s = some s') : x.Served settings backend s s' := by
  obtain ⟨⟨r, s''⟩, hrun, rfl⟩ := Option.map_eq_some_iff.1 h
  exact ⟨r, hrun⟩

end Sample

/-- A user founds a group and invites another one, who joins. -/
theorem groups_governed_club : ∃ s₁ s₂ : State Unit,
    Turns (TimedGroupCall.Served Sample.settings Sample.backend) [Sample.founding, Sample.inviting]
      (World.fresh Sample.founders) s₁ ∧
    Sample.joining.Served Sample.settings Sample.backend s₁ s₂ ∧
    isMemberOf .viewer "club" "guest" s₂.db = true ∧ EveryGroupOwned s₂.db := by
  have hrun : ((Sample.afterGroupCall Sample.founding (World.fresh Sample.founders)).any fun a =>
      (Sample.afterGroupCall Sample.inviting a).any fun b =>
        (Sample.afterGroupCall Sample.joining b).any fun c =>
          isMemberOf .viewer "club" "guest" c.db) = true := by
    decide +kernel
  obtain ⟨a, ha, hrun⟩ := (Option.any_eq_true _ _).1 hrun
  obtain ⟨b, hb, hrun⟩ := (Option.any_eq_true _ _).1 hrun
  obtain ⟨c, hc, hmember⟩ := (Option.any_eq_true _ _).1 hrun
  have hturns : Turns (TimedGroupCall.Served Sample.settings Sample.backend)
      [Sample.founding, Sample.inviting] (World.fresh Sample.founders) b :=
    .cons (Sample.served_of_after ha) (.single (Sample.served_of_after hb))
  have hstart : EveryGroupOwned (World.fresh Sample.founders : State Unit).db := by
    intro g hg
    cases hg
  obtain ⟨-, howned, -, -⟩ := groups_governed (between_fresh Sample.founders) hstart hturns
    (Sample.served_of_after hc)
  exact ⟨b, c, hturns, Sample.served_of_after hc, hmember, howned⟩

end Vivac
