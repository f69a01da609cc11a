import Vivac.Groups.Governance

/-!
# Invites along serial runs

A user joins through an invite only while it is PENDING and valid, and gets the role and the inviter
that it names (`Accepts`). Over a whole run an invite lets one user join, an accepted one stays
accepted, and one without a group stays as it is. An acceptance that ends in an error changes no
row, and a signup by an invite that is not valid any more changes only who has referred the new user
(`invites_kept`).
-/

set_option autoImplicit false

namespace Vivac

open Lib App

/-! ## One request -/

/-- The request accepts an invite, or may consume one at a login. -/
def GroupCall.consumes : GroupCall → Bool
  | .consume _ => true
  | _ => false

/-- The invite is accepted, if it is there. -/
def OnceAccepted (inviteUid : String) (d : Db) : Prop :=
  ∀ v, d.invites.find? inviteUid = some v → v.status = .accepted

section Act

variable {q : GroupRequest} {d d' : Db} {uid : String}

/-- An accepted invite stays so, and no other takes its place but one that the request makes. -/
theorem GroupAct.onceAccepted (h : GroupAct q d d') (hd : OnceAccepted uid d)
    (hmade : q.made ≠ some uid) : OnceAccepted uid d' := by
  intro v' hv'
  cases hv : d.invites.find? uid with
  | none => exact absurd (h.made_of_new hv (by rw [hv']; rfl)) hmade
  | some v =>
      have haccepted := hd v hv
      rcases h.invite_after hv with hsame | ⟨-, hgone | ⟨hpending, -⟩⟩
      · rw [hsame] at hv'
        cases hv'
        exact haccepted
      · rw [hgone] at hv'
        cases hv'
      · rw [haccepted] at hpending
        cases hpending

/-- An invite without a group stays as it is. -/
theorem GroupAct.groupless (h : GroupAct q d d') {v : Invite}
    (hv : d.invites.find? uid = some v) (hgroup : v.groupUid = none) :
    d'.invites.find? uid = some v := by
  rcases h.invite_after hv with hsame | ⟨hsome, -⟩
  · exact hsame
  · rw [hgroup] at hsome
    cases hsome

theorem Accepts.onceAccepted {v : Invite} {m : SpotGroupMember} (h : Accepts q v m d d') :
    OnceAccepted v.uid d' := by
  obtain ⟨v', hv', hstatus, -⟩ := h.acceptedBy
  intro w hw
  rw [hv'] at hw
  cases hw
  exact hstatus

/-- What is accepted is not accepted again. -/
theorem Accepts.not_onceAccepted {v : Invite} {m : SpotGroupMember} (h : Accepts q v m d d') :
    ¬OnceAccepted v.uid d := by
  intro hd
  have haccepted := hd v h.invite
  rw [h.pending] at haccepted
  cases haccepted

/-- The role and the inviter of the new member are those the invite names. -/
theorem Accepts.member {v : Invite} {m : SpotGroupMember} (h : Accepts q v m d d') :
    d'.members.find? (m.groupUid, m.userUid) = some m := by
  rw [h.members, Table.find?_insert_self h.fresh]

end Act

namespace TimedGroupCall

variable {cfg : Settings} {be : Backend} {x : TimedGroupCall} {r : Except Exc Unit}
  {s s' : State Unit}

/-- What consumes an invite accepts it, or leaves groups, members and invites. -/
theorem Serves.consumeAct (h : x.Serves cfg be r s s') (hs : Between s)
    (hx : x.call.consumes = true) : ConsumeAct x.request s.db s'.db := by
  obtain ⟨now, call⟩ := x
  cases call with
  | consume k =>
      have hbody : Lone () (Sees () s.db [] s.db) ((GroupCall.consume k).body cfg be now)
          fun _ t => ConsumeAct (TimedGroupCall.request ⟨now, .consume k⟩) s.db t.db := by
        cases k with
        | accept credentials inviteUid =>
            exact (lone_acceptBody cfg be now s.db credentials inviteUid).conseq (fun _ ht => ht)
              fun _ _ ht => ht.1
        | signup uid nicknames info inviteUid =>
            exact lone_signupBody cfg be now s.db uid nicknames info inviteUid
      obtain ⟨r', s'', hrun, -, hact⟩ := lone_withSession (Q := fun _ d =>
        ConsumeAct (TimedGroupCall.request ⟨now, .consume k⟩) s.db d) hbody s hs.sees
      have hsame : some (r', s'') = some (r, s') := hrun.symm.trans h
      cases hsame
      exact hact
  | _ => cases hx

/-- An acceptance that ends in an error has changed no row. -/
theorem Serves.refused {credentials : Credentials} {inviteUid : String} {now : Timestamp} {e : Exc}
    (h : TimedGroupCall.Serves cfg be ⟨now, .consume (.accept credentials inviteUid)⟩
      (.error e) s s')
    (hs : Between s) : s'.db = s.db := by
  obtain ⟨r', s'', hrun, -, -, herror⟩ := lone_withSession (Q := fun r d =>
    ConsumeAct (TimedGroupCall.request ⟨now, .consume (.accept credentials inviteUid)⟩) s.db d ∧
      ∀ e, r = .error e →
        d = s.db) (lone_acceptBody cfg be now s.db credentials inviteUid) s hs.sees
  have hsame : some (r', s'') = some (.error e, s') := hrun.symm.trans h
  cases hsame
  exact herror e rfl

end TimedGroupCall

/-! ## Signups by an invite that is not valid any more -/

section Signups

variable {ι : Type} [DecidableEq ι] {i : ι} {db d : Db} {now : Timestamp} {invite : Invite}
  {groupUid : String} {user : User}

/-- The check fails, and the referral is written, by the check's first query or after it. -/
theorem lone_invalidSignup (huser : (d.users.find? user.uid).isSome = true)
    (hinvite : d.invites.find? invite.uid = some invite) (hpending : invite.status = .pending)
    (hgroup : invite.groupUid = some groupUid) (hinvalid : ¬StillValid now invite groupUid d) :
    Lone i (Sees i d [] d) (consumeInviteForSignup now invite.uid user) fun r s =>
      r = .ok () ∧ s.db = afterReferral user invite.inviterUid d := by
  have hreferral := (walk_flushReferral (i := i) d huser invite.inviterUid).lone
  have hcommit : Lone i (Sees i d [] (afterReferral user invite.inviterUid d)) commit fun r s =>
      r = .ok () ∧ s.db = afterReferral user invite.inviterUid d :=
    Lone.commit.conseq (fun _ hs => hs) fun r s hs => ⟨hs.1, hs.2.holds.db_eq⟩
  have hstill : ¬StillValid now invite groupUid (afterReferral user invite.inviterUid d) := by
    have hsame := leavesGroups_afterReferral user invite.inviterUid d
    rintro ⟨hyoung, hopen, howner⟩
    rw [hsame.groups] at hopen
    rw [hsame.members] at howner
    exact hinvalid ⟨hyoung, hopen, howner⟩
  unfold consumeInviteForSignup
  apply Lone.bind_ok (Lone.read fun d : Db => d.invites.find? invite.uid)
  rw [hinvite]
  dsimp only
  rw [if_neg (by simp [hpending]), hgroup]
  cases hyoung : inviteExpired now invite with
  | true =>
      -- too old: no query, so that the referral is flushed after the check
      have hcheck : Lone i (Sees i d [] d) (isGroupInviteStillValid now
          (flushReferral user invite.inviterUid) invite groupUid) fun r s =>
            r = .ok false ∧ Sees i d [] d s := by
        unfold isGroupInviteStillValid
        rw [if_pos hyoung]
        exact Lone.ret _ fun s hs => ⟨rfl, hs⟩
      apply Lone.bind_ok hcheck
      exact Lone.bind_ok hreferral (Lone.bind_ok (walk_skip _ _).lone hcommit)
  | false =>
      obtain ⟨n, hcheck⟩ :=
          walk_invalid (walk_flushReferral (i := i) d huser invite.inviterUid) hyoung
        hstill
      apply Lone.bind_ok hcheck.lone
      exact Lone.bind_ok (walk_skip _ _).lone (Lone.bind_ok (walk_skip _ _).lone hcommit)

/-- The tables with a new user whom the inviter has referred. -/
def ReferredOnly (uid inviterUid : String) (d d' : Db) : Prop :=
  ∃ user : User, user.uid = uid ∧ user.referredByUid = none ∧
    d' = withUser { user with referredByUid := some inviterUid } d

theorem afterReferral_withUser {inviterUid : String} (hreferred : user.referredByUid = none)
    (hfresh : db.users.find? user.uid = none) :
    afterReferral user inviterUid (withUser user db) =
      withUser { user with referredByUid := some inviterUid } db := by
  have hchanged : (user.referredByUid != some inviterUid) = true := by simp [hreferred]
  rw [afterReferral, if_pos hchanged, rewriteUser, withUser, withUser]
  dsimp only
  rw [Table.rewrite_insert_self hfresh (fun u => beq_iff_eq (a := u.uid)) rfl]

end Signups

/-- The end of a signup by an invalid invite: the new user is there, and referred, or nothing has
changed. -/
def OnlyReferred {α : Type} (uid inviterUid : String) (d : Db) (r : Except Exc α) (d' : Db) :
    Prop :=
  match r with
  | .ok _ => ReferredOnly uid inviterUid d d'
  | .error _ => d' = d

theorem TimedGroupCall.Serves.invalidSignup {cfg : Settings} {be : Backend} {now : Timestamp}
    {uid : String} {nicknames : ℕ → String} {info : GoogleInfo} {v : Invite} {groupUid : String}
    {r : Except Exc Unit} {s s' : State Unit}
    (h : TimedGroupCall.Serves cfg be
      ⟨now, .consume (.signup uid nicknames (some info) (some v.uid))⟩ r s s')
    (hs : Between s) (hnew : (s.db.users.select fun u => u.googleSub == info.sub) = [])
    (hname : v.uid ≠ "") (hinvite : s.db.invites.find? v.uid = some v)
    (hpending : v.status = .pending)
    (hgroup : v.groupUid = some groupUid) (hinvalid : ¬StillValid now v groupUid s.db) :
    OnlyReferred uid v.inviterUid s.db r s'.db := by
  have hlogin : Lone () (Sees () s.db [] s.db)
      (Auth.googleLogin be now uid nicknames (some info) (some v.uid)) fun r t =>
        OnlyReferred uid v.inviterUid s.db r t.db := by
    refine lone_loginOfNew hnew (fun e => rfl) fun user huid hreferred hfresh => ?_
    subst huid
    have hstill : ¬StillValid now v groupUid (withUser user s.db) := by
      rintro ⟨hyoung, hopen, howner⟩
      exact hinvalid ⟨hyoung, hopen, howner⟩
    have hconsume := lone_invalidSignup (i := ()) (isSome_find?_withUser user s.db) hinvite hpending
      hgroup hstill
    rw [afterReferral_withUser hreferred hfresh] at hconsume
    have hrun : Auth.consumeForNewUser now true (some v.uid) user =
        consumeInviteForSignup now v.uid user := by
      simp [Auth.consumeForNewUser, whenever, hname]
    rw [hrun]
    refine hconsume.conseq (fun _ ht => ht) fun r t ht => ⟨fun _ => ?_, fun e he => ?_⟩
    · exact ⟨user, rfl, hreferred, ht.2⟩
    · rw [ht.1] at he
      cases he
  have hbody : Lone () (Sees () s.db [] s.db) ((GroupCall.consume
      (.signup uid nicknames (some info) (some v.uid))).body cfg be now) fun r t =>
        OnlyReferred uid v.inviterUid s.db r t.db :=
    Lone.bind _ hlogin (fun _ => Lone.ret _ fun t ht => ht) fun _ _ ht => ht
  obtain ⟨r', s'', hrun, -, hends⟩ := lone_withSession (Q := fun r d =>
    OnlyReferred uid v.inviterUid s.db r d) hbody s hs.sees
  have hsame : some (r', s'') = some (r, s') := hrun.symm.trans h
  cases hsame
  exact hends

/-! ## Runs -/

section Runs

variable {cfg : Settings} {be : Backend} {xs : List TimedGroupCall} {s s' : State Unit}
  {uid : String}

/-- The uids that the requests draw for new invites. -/
def madeInvites (xs : List TimedGroupCall) : List String := xs.filterMap fun x => x.call.made

/-- The uids drawn for new invites are fresh. -/
structure FreshInvites (xs : List TimedGroupCall) (d : Db) : Prop where
  nodup : (madeInvites xs).Nodup
  absent : ∀ uid ∈ madeInvites xs, d.invites.find? uid = none

theorem mem_madeInvites {x : TimedGroupCall} (hx : x ∈ xs) (h : x.call.made = some uid) :
    uid ∈ madeInvites xs := List.mem_filterMap.2 ⟨x, hx, h⟩

/-- What is there after a run was there before it, or was made in it. -/
theorem there_before (hrun : Turns (TimedGroupCall.Served cfg be) xs s s') (hs : Between s)
    (h : (s'.db.invites.find? uid).isSome = true) :
    (s.db.invites.find? uid).isSome = true ∨ uid ∈ madeInvites xs := by
  have hkept : Between s' ∧ ((s'.db.invites.find? uid).isSome = true →
      (s.db.invites.find? uid).isSome = true ∨ uid ∈ madeInvites xs) := by
    refine hrun.invariant (I := fun t => Between t ∧ ((t.db.invites.find? uid).isSome = true →
      (s.db.invites.find? uid).isSome = true ∨ uid ∈ madeInvites xs)) ?_ ⟨hs, fun h => .inl h⟩
    rintro x hx a b ⟨r, hserves⟩ ⟨ha, hbefore⟩
    refine ⟨hserves.between, fun hb => ?_⟩
    cases hnone : a.db.invites.find? uid with
    | some v => exact hbefore (by rw [hnone]; rfl)
    | none => exact .inr (mem_madeInvites hx ((hserves.act ha).made_of_new hnone hb))
  exact hkept.2 h

/-- An invite that is accepted, or gone, is so after a run that does not make it. -/
theorem onceAccepted_run (hrun : Turns (TimedGroupCall.Served cfg be) xs s s') (hs : Between s)
    (h : OnceAccepted uid s.db) (hmade : uid ∉ madeInvites xs) :
    Between s' ∧ OnceAccepted uid s'.db := by
  refine hrun.invariant (I := fun t => Between t ∧ OnceAccepted uid t.db) ?_ ⟨hs, h⟩
  rintro x hx a b ⟨r, hserves⟩ ⟨ha, haccepted⟩
  exact ⟨hserves.between,
    (hserves.act ha).onceAccepted haccepted fun hmakes => hmade (mem_madeInvites hx hmakes)⟩

/-- An invite without a group is after a run what it was before. -/
theorem groupless_run (hrun : Turns (TimedGroupCall.Served cfg be) xs s s') (hs : Between s)
    {v : Invite} (hv : s.db.invites.find? uid = some v) (hgroup : v.groupUid = none) :
    s'.db.invites.find? uid = some v := by
  have hkept : Between s' ∧ s'.db.invites.find? uid = some v := by
    refine hrun.invariant (I := fun t => Between t ∧ t.db.invites.find? uid = some v) ?_ ⟨hs, hv⟩
    rintro x - a b ⟨r, hserves⟩ ⟨ha, hfound⟩
    exact ⟨hserves.between, (hserves.act ha).groupless hfound hgroup⟩
  exact hkept.2

theorem between_run (hrun : Turns (TimedGroupCall.Served cfg be) xs s s') (hs : Between s) :
    Between s' := by
  refine hrun.invariant ?_ hs
  rintro x - a b ⟨r, hserves⟩ -
  exact hserves.between

/-- What is there before a later part of a run is not made in it. -/
theorem not_made_later {ys : List TimedGroupCall} (hfresh : FreshInvites (xs ++ ys) s.db)
    (hrun : Turns (TimedGroupCall.Served cfg be) xs s s') (hs : Between s)
    (h : (s'.db.invites.find? uid).isSome = true) : uid ∉ madeInvites ys := by
  intro hlater
  have happend : madeInvites (xs ++ ys) = madeInvites xs ++ madeInvites ys := List.filterMap_append
  rcases there_before hrun hs h with hold | hmade
  · rw [hfresh.absent uid (by rw [happend]; exact List.mem_append_right _ hlater)] at hold
    cases hold
  · have hnodup := hfresh.nodup
    rw [happend, List.nodup_append] at hnodup
    exact hnodup.2.2 uid hmade uid hlater rfl

end Runs

/-- In every run of requests one after another, with a request `x` in it and one `y` later: members
change by an acceptance or a login only as `Accepts` says; `y` does not let a user join through the
invite of `x`; what is accepted before `x` is accepted still before `y`, and an invite without a
group is what it was; and an acceptance that is refused changes no row, a signup by an invalid
invite only the referral. -/
theorem invites_kept {cfg : Settings} {be : Backend} {xs ys : List TimedGroupCall}
    {x y : TimedGroupCall} {r : Except Exc Unit} {s s₁ s₂ s₃ : State Unit} (hs : Between s)
    (hfresh : FreshInvites (xs ++ x :: ys) s.db)
    (hrun : Turns (TimedGroupCall.Served cfg be) xs s s₁) (hx : x.Serves cfg be r s₁ s₂)
    (hlater : Turns (TimedGroupCall.Served cfg be) ys s₂ s₃) :
    (x.call.consumes = true → s₂.db.members ≠ s₁.db.members →
      ∃ v m, Accepts x.request v m s₁.db s₂.db) ∧
    (∀ v m w m' s₄, y.Served cfg be s₃ s₄ → Accepts x.request v m s₁.db s₂.db →
      Accepts y.request w m' s₃.db s₄.db → v.uid ≠ w.uid) ∧
    (∀ uid v, s₁.db.invites.find? uid = some v → v.status = .accepted →
      OnceAccepted uid s₃.db) ∧
    (∀ uid v, s₁.db.invites.find? uid = some v → v.groupUid = none →
      s₃.db.invites.find? uid = some v) ∧
    (∀ now credentials inviteUid e, x = ⟨now, .consume (.accept credentials inviteUid)⟩ →
      r = .error e → s₂.db = s₁.db) ∧
    ∀ now uid nicknames info v groupUid,
      x = ⟨now, .consume (.signup uid nicknames (some info) (some v.uid))⟩ →
      (s₁.db.users.select fun u => u.googleSub == info.sub) = [] → v.uid ≠ "" →
      s₁.db.invites.find? v.uid = some v → v.status = .pending → v.groupUid = some groupUid →
      ¬StillValid now v groupUid s₁.db → OnlyReferred uid v.inviterUid s₁.db r s₂.db := by
  have hbetween := between_run hrun hs
  have hrest : Turns (TimedGroupCall.Served cfg be) (x :: ys) s₁ s₃ := .cons ⟨r, hx⟩ hlater
  have hnotMade : ∀ uid, (s₁.db.invites.find? uid).isSome = true → uid ∉ madeInvites (x :: ys) :=
    fun uid huid => not_made_later hfresh hrun hs huid
  refine ⟨fun hconsumes hchanged => ?_, fun v m w m' _ _ hv hw huid =>
    ?_, fun uid v hv hstatus => ?_,
    fun uid v hv hgroup => groupless_run hrest hbetween hv hgroup, ?_, ?_⟩
  · rcases hx.consumeAct hbetween hconsumes with hstays | haccepts
    · exact absurd hstays.members hchanged
    · exact haccepts
  · -- the invite of the first was there, so that no later request makes it
    have hmade : w.uid ∉ madeInvites ys := by
      intro hmem
      refine hnotMade w.uid (by rw [← huid, hv.invite]; rfl) ?_
      obtain ⟨z, hz, hzmade⟩ := List.mem_filterMap.1 hmem
      exact mem_madeInvites (List.mem_cons_of_mem _ hz) hzmade
    have hafter : OnceAccepted w.uid s₂.db := huid ▸ hv.onceAccepted
    exact hw.not_onceAccepted (onceAccepted_run hlater hx.between hafter hmade).2
  · refine (onceAccepted_run hrest hbetween (fun w hw => ?_) (hnotMade uid (by rw [hv]; rfl))).2
    rw [hv] at hw
    cases hw
    exact hstatus
  · rintro now credentials inviteUid e rfl rfl
    exact hx.refused hbetween
  · rintro now uid nicknames info v groupUid rfl hnew hname hinvite hpending hgroup hinvalid
    exact hx.invalidSignup hbetween hnew hname hinvite hpending hgroup hinvalid

/-- A guest joins through the invite; a second user does not, after it. -/
theorem invites_kept_card : ∃ s₁ s₂ s₄ : State Unit,
    Turns (TimedGroupCall.Served Sample.settings Sample.backend) [Sample.founding, Sample.inviting]
      (World.fresh Sample.founders) s₁ ∧
    Sample.joining.Served Sample.settings Sample.backend s₁ s₂ ∧
    (∃ v m, Accepts Sample.joining.request v m s₁.db s₂.db ∧
      ∀ w m', Accepts Sample.joining.request w m' s₂.db s₄.db → v.uid ≠ w.uid) := by
  have hrun : ((Sample.afterGroupCall Sample.founding (World.fresh Sample.founders)).any fun a =>
      (Sample.afterGroupCall Sample.inviting a).any fun b =>
        (Sample.afterGroupCall Sample.joining b).any fun c =>
          (Sample.afterGroupCall Sample.joining c).any fun _ =>
            decide (b.db.members.rows.length < c.db.members.rows.length)) = true := by
    decide +kernel
  obtain ⟨a, ha, hrun⟩ := (Option.any_eq_true _ _).1 hrun
  obtain ⟨b, hb, hrun⟩ := (Option.any_eq_true _ _).1 hrun
  obtain ⟨c, hc, hrun⟩ := (Option.any_eq_true _ _).1 hrun
  obtain ⟨e, he, hmore⟩ := (Option.any_eq_true _ _).1 hrun
  have hturns : Turns (TimedGroupCall.Served Sample.settings Sample.backend)
      [Sample.founding, Sample.inviting] (World.fresh Sample.founders) b :=
    .cons (Sample.served_of_after ha) (.single (Sample.served_of_after hb))
  have hfresh : FreshInvites ([Sample.founding, Sample.inviting] ++ Sample.joining :: [])
      (World.fresh Sample.founders : State Unit).db :=
    ⟨List.nodup_singleton "card", fun uid _ => rfl⟩
  obtain ⟨r, hserves⟩ := Sample.served_of_after hc
  obtain ⟨hjoins, honce, -⟩ := invites_kept (between_fresh Sample.founders) hfresh hturns hserves
    (.nil c)
  obtain ⟨v, m, haccepts⟩ := hjoins rfl fun hsame => by
    rw [hsame] at hmore
    simp at hmore
  exact ⟨b, c, e, hturns, ⟨r, hserves⟩, v, m, haccepts, fun w m' hw =>
    honce v m w m' e (Sample.served_of_after he) haccepts hw⟩

end Vivac
