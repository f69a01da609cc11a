import Vivac.Core.Contracts
import Vivac.Core.SampleBackend
import Vivac.Endpoints.Invites
import Mathlib.Data.Fintype.Basic

/-!
# Group invites are for one use

Any number of acceptances and signups, interleaved statement by statement. A call commits its
membership first and the invite's new status after it, and the status it checked may be old by
then, so two calls can both join through one invite (`invite_used_twice`).

An invite whose acceptance is committed is never PENDING again (`InviteLaw.settled`), and a call
commits no membership unless it has read its invite as PENDING (`JoinsOnce.found`). When that
invite is PENDING still at the commit and no other call stands between its two commits, at most
one user joins through an invite (`invite_one_shot`).
-/

set_option autoImplicit false

namespace Vivac

open Lib App

/-! ## Calls -/

/-- A call that may consume an invite: an acceptance, or a login. -/
inductive InviteCall where
  | accept (credentials : Credentials) (inviteUid : String)
  | signup (uid : String) (nicknames : ℕ → String) (info : Option GoogleInfo)
      (inviteUid : Option String)

namespace InviteCall

/-- The invite a call names. -/
def invite : InviteCall → Option String
  | .accept _ inviteUid => some inviteUid
  | .signup _ _ _ inviteUid => inviteUid

/-- The program of a call, in its session. -/
def program (be : Backend) (now : Timestamp) : InviteCall → App Unit
  | .accept credentials inviteUid => withSession do
    let _ ← Invites.acceptInvite now credentials inviteUid
  | .signup uid nicknames info inviteUid => withSession do
    let _ ← Auth.googleLogin be now uid nicknames info inviteUid

end InviteCall

/-! ## What is committed -/

def Change.membership? : Change → Option (String × String)
  | .member groupUid userUid => some (groupUid, userUid)
  | _ => none

def Change.invite? : Change → Option String
  | .invite uid => some uid
  | _ => none

/-- The memberships among changes. -/
def memberships (changes : List Change) : List (String × String) :=
  changes.filterMap Change.membership?

/-- The invites among changes. -/
def acceptances (changes : List Change) : List String := changes.filterMap Change.invite?

/-- The memberships of commits. -/
def joins (commits : List (List Change)) : List (String × String) := memberships commits.flatten

/-- The invites of commits. -/
def accepts (commits : List (List Change)) : List String := acceptances commits.flatten

/-- The invite is there, and PENDING. -/
def isPending (uid : String) (d : Db) : Bool :=
  (d.invites.find? uid).any fun v => v.status == .pending

/-- The last commit was that of a membership: the invite's new status is to follow. -/
def BetweenCommits (commits : List (List Change)) : Prop :=
  ∃ changes ∈ commits.getLast?, memberships changes ≠ []

/-- An invite that was PENDING in a database of `seen` is PENDING in this one. -/
def StatusStands (uid : String) (seen : List Db) (d : Db) : Prop :=
  ∀ d₀ ∈ seen, isPending uid d₀ = true → isPending uid d = true

@[simp] theorem betweenCommits_concat {commits : List (List Change)} {changes : List Change} :
    BetweenCommits (commits ++ [changes]) ↔ memberships changes ≠ [] := by
  simp [BetweenCommits]

/-! ## Calm work -/

/-- A write with its changes leaves no invite PENDING that was not, and the invites among its
changes are not PENDING after it. -/
structure SettlesInvites (write : Db → Db) (changes : List Change) : Prop where
  keeps : ∀ d uid, isPending uid (write d) = true → isPending uid d = true
  settles : ∀ uid ∈ acceptances changes, ∀ d, isPending uid (write d) = false

/-- A command that settles invites and adds no member. -/
def Command.Calm : {β : Type} → Command β → Prop
  | _, .sql st => ∀ locked d eff, st locked d = .ok eff →
      SettlesInvites eff.write eff.changes ∧ memberships eff.changes = []
  | _, .savepoint => False
  | _, .release => False
  | _, .rollbackTo => False
  | _, _ => True

theorem SettlesInvites.of_invites {write : Db → Db} {changes : List Change}
    (hsame : ∀ d, (write d).invites = d.invites) (hnone : acceptances changes = []) :
    SettlesInvites write changes := by
  constructor
  · intro d uid h
    simpa only [isPending, hsame] using h
  · intro uid huid
    rw [hnone] at huid
    cases huid

theorem SettlesInvites.comp {write write' : Db → Db} {changes changes' : List Change}
    (h : SettlesInvites write changes) (h' : SettlesInvites write' changes') :
    SettlesInvites (write' ∘ write) (changes ++ changes') := by
  constructor
  · intro d uid hpending
    exact h.keeps d uid (h'.keeps (write d) uid hpending)
  · intro uid huid d
    rw [acceptances, List.filterMap_append, List.mem_append] at huid
    rcases huid with huid | huid
    · have hbefore := h.settles uid huid d
      cases hafter : isPending uid ((write' ∘ write) d) with
      | false => rfl
      | true =>
          have hcontra := h'.keeps (write d) uid hafter
          rw [hbefore] at hcontra
          cases hcontra
    · exact h'.settles uid huid (write d)

section Statements

theorem calm_read {R : Type} (f : Db → R) : Command.Calm (.sql (Stmt.read f) : Command R) := by
  intro locked d eff heff
  cases heff
  exact ⟨.of_invites (fun _ => rfl) rfl, rfl⟩

theorem calm_select {R : Type} (f : Db → R) : (select f).Uses Command.Calm :=
  Prog.uses_perform (calm_read f)

theorem calm_insertUserRow (u : User) : Command.Calm (.sql (insertUserRow u) : Command Unit) := by
  intro locked d eff heff
  simp only [insertUserRow] at heff
  split at heff
  · cases heff
  · cases heff
    exact ⟨.of_invites (fun _ => rfl) rfl, rfl⟩

theorem calm_updateUserRow (uid : String) (f : Rewrite User.uid) :
    Command.Calm (.sql (updateUserRow uid f) : Command Bool) := by
  intro locked d eff heff
  simp only [updateUserRow] at heff
  split at heff
  · cases heff
    exact ⟨.of_invites (fun _ => rfl) rfl, rfl⟩
  · cases heff
    exact ⟨.of_invites (fun _ => rfl) rfl, rfl⟩

theorem find?_rewriteInvite (uid uid' : String) (f : Rewrite Invite.uid) (d : Db) :
    (rewriteInvite uid f d).invites.find? uid' =
      (d.invites.find? uid').map fun v => if v.uid == uid then (f.apply v).getD v else v :=
  Table.find?_rewrite ..

/-- An accepted invite is not PENDING, and the others are as they were. -/
theorem settles_accepted (now : Timestamp) (uid userUid : String) :
    SettlesInvites (rewriteInvite uid (setAccepted now userUid)) [.invite uid] := by
  constructor
  · intro d uid' h
    simp only [isPending, find?_rewriteInvite] at h ⊢
    cases hv : d.invites.find? uid' with
    | none => simp [hv] at h
    | some v =>
        by_cases hsame : v.uid = uid
        · simp [hv, hsame, setAccepted, Rewrite.total] at h
        · simpa [hv, hsame] using h
  · intro uid' huid d
    obtain rfl : uid' = uid := by simpa [acceptances, Change.invite?] using huid
    simp only [isPending, find?_rewriteInvite]
    cases hv : d.invites.find? uid' with
    | none => rfl
    | some v =>
        have huid : v.uid = uid' := (Table.find?_eq_some.1 hv).2
        simp [huid, setAccepted, Rewrite.total]

theorem calm_updateInviteRow (now : Timestamp) (uid userUid : String) :
    Command.Calm (.sql (updateInviteRow uid (setAccepted now userUid)) : Command Bool) := by
  intro locked d eff heff
  simp only [updateInviteRow] at heff
  split at heff
  · cases heff
    exact ⟨settles_accepted now uid userUid, rfl⟩
  · cases heff
    exact ⟨.of_invites (fun _ => rfl) rfl, rfl⟩

end Statements

/-! ## Calm programs -/

section Programs

variable (be : Backend) (now : Timestamp)

theorem calm_getCurrentUser (credentials : Credentials) :
    (getCurrentUser credentials).Uses Command.Calm := by
  cases credentials with
  | access sub =>
      apply (calm_select _).bind
      intro found
      cases found with
      | none => trivial
      | some user =>
          dsimp only
          split <;> trivial
  | missing => trivial
  | invalid => trivial
  | otherType => trivial

theorem calm_flushUser (uid : String) (f : Rewrite User.uid) :
    (flushUser uid f).Uses Command.Calm := by
  apply (Prog.uses_perform (calm_updateUserRow uid f)).bind
  intro found
  split <;> trivial

theorem calm_whenever {c : Bool} {p : App Unit} (hp : p.Uses Command.Calm) :
    (whenever c p).Uses Command.Calm := by
  unfold whenever
  split
  · exact hp
  · trivial

theorem calm_getUserByGoogleSub (googleSub : String) :
    (getUserByGoogleSub googleSub).Uses Command.Calm := by
  apply (calm_select _).bind
  intro found
  exact Prog.uses_ofExcept _

theorem calm_refreshUser (uid : String) : (refreshUser uid).Uses Command.Calm := by
  apply (calm_select _).bind
  intro found
  cases found <;> trivial

theorem calm_generateUniqueNickname (candidates : List String) :
    (generateUniqueNickname candidates).Uses Command.Calm := by
  induction candidates with
  | nil => trivial
  | cons candidate candidates ih =>
      apply (calm_select _).bind
      intro found
      apply (Prog.uses_ofExcept _).bind
      intro taken
      cases taken with
      | none => trivial
      | some _ => exact ih

theorem calm_createUser (uid : String) (nicknames : ℕ → String) (info : GoogleInfo) :
    (createUser be uid nicknames info).Uses Command.Calm := by
  apply (calm_generateUniqueNickname _).bind
  intro nickname
  apply (Prog.uses_perform (calm_insertUserRow _)).bind
  intro _
  apply (Prog.uses_perform (c := (.commit : Command Unit)) trivial).bind
  intro _
  exact calm_refreshUser uid

theorem calm_updateUserProfile (user : User) (name picture : Option String) :
    (updateUserProfile user name picture).Uses Command.Calm := by
  apply (calm_whenever (calm_flushUser _ _)).bind
  intro _
  apply (Prog.uses_perform (c := (.commit : Command Unit)) trivial).bind
  intro _
  exact calm_refreshUser _

theorem calm_firstLogin (uid : String) (nicknames : ℕ → String) (info : GoogleInfo) :
    (Auth.firstLogin be uid nicknames info).Uses Command.Calm := by
  apply (calm_createUser be uid nicknames info).tryCatch
  intro e
  split
  · apply (Prog.uses_perform (c := (.rollback : Command Unit)) trivial).bind
    intro _
    apply (calm_getUserByGoogleSub _).bind
    intro found
    cases found <;> trivial
  · trivial

theorem calm_isGroupInviteStillValid {autoflush : App Unit} (h : autoflush.Uses Command.Calm)
    (invite : Invite) (groupUid : String) :
    (isGroupInviteStillValid now autoflush invite groupUid).Uses Command.Calm := by
  unfold isGroupInviteStillValid
  split
  · trivial
  · apply h.bind
    intro _
    apply (calm_select _).bind
    intro group
    cases group with
    | none => trivial
    | some group =>
        dsimp only
        split
        · trivial
        · apply (calm_select _).bind
          intro inviter
          trivial

theorem calm_refreshInvite (uid : String) : (refreshInvite uid).Uses Command.Calm := by
  apply (calm_select _).bind
  intro found
  cases found <;> trivial

end Programs

/-! ## One call -/

/-- The work and the history of a session. -/
abbrev OwnWork := Own Db RowKey Change

/-- A call through `invite` commits one membership at most, and only when it has met the invite
PENDING; its next commit is that of the acceptance; and what it commits settles invites. -/
structure JoinsOnce (invite : Option String) (w : Work Db RowKey Change) (seen : List Db)
    (commits : List (List Change)) : Prop where
  settles : SettlesInvites w.write w.changes
  once : memberships w.changes = [] ∨ joins commits = [] ∧ (memberships w.changes).length = 1
  found : memberships w.changes ≠ [] → ∀ uid ∈ invite, ∃ d ∈ seen, isPending uid d = true
  next : BetweenCommits commits → ∀ uid ∈ invite, uid ∈ acceptances w.changes

/-- The session's work adds no member; it has committed the memberships `ms`. -/
structure CalmWith (ms : List (String × String)) (o : OwnWork) : Prop where
  work : ∀ w, o.work = some w → SettlesInvites w.write w.changes ∧ memberships w.changes = []
  joined : joins o.commits = ms

/-- The session is calm, does not stand between its two commits, and has met the invite `met`
PENDING. -/
structure NotBetween (met : Option String) (ms : List (String × String)) (o : OwnWork) : Prop
    extends CalmWith ms o where
  apart : ¬BetweenCommits o.commits
  met : ∀ uid ∈ met, ∃ d ∈ o.seen, isPending uid d = true

/-- The session's work accepts the invite; it has committed the memberships `ms`. -/
structure Accepting (uid : String) (ms : List (String × String)) (w : Work Db RowKey Change)
    (o : OwnWork) : Prop where
  work : o.work = some w
  settles : SettlesInvites w.write w.changes
  calm : memberships w.changes = []
  accepts : uid ∈ acceptances w.changes
  joined : joins o.commits = ms

theorem notBetween_new : NotBetween none [] {} := by
  refine ⟨⟨fun w hw => ?_, rfl⟩, fun hbetween => ?_, by simp⟩
  · cases hw
    exact ⟨.of_invites (fun _ => rfl) rfl, rfl⟩
  · obtain ⟨_, hlast, -⟩ := hbetween
    cases hlast

theorem joins_append (commits : List (List Change)) (changes : List Change) :
    joins (commits ++ [changes]) = joins commits ++ memberships changes := by
  simp [joins, memberships]

section Call

variable {invite met : Option String} {ms : List (String × String)} {o : OwnWork}

theorem CalmWith.idle (h : CalmWith ms o) : CalmWith ms (o.withWork {}) := by
  refine ⟨fun w hw => ?_, h.joined⟩
  cases hw
  exact ⟨.of_invites (fun _ => rfl) rfl, rfl⟩

theorem NotBetween.idle (h : NotBetween met ms o) : NotBetween met ms (o.withWork {}) :=
  ⟨h.toCalmWith.idle, h.apart, h.met⟩

theorem NotBetween.broken (h : NotBetween met ms o) : NotBetween met ms o.broken := by
  refine ⟨⟨fun w hw => ?_, h.joined⟩, h.apart, h.met⟩
  cases hw

/-- What the session has met, it has met. -/
theorem NotBetween.saw (h : NotBetween met ms o) (d : Db) {w : Option (Work Db RowKey Change)}
    (hw : ∀ w', w = some w' → SettlesInvites w'.write w'.changes ∧ memberships w'.changes = []) :
    NotBetween met ms ⟨w, d :: o.seen, o.commits⟩ := by
  refine ⟨⟨hw, h.joined⟩, h.apart, fun uid huid => ?_⟩
  obtain ⟨d₀, hd₀, hpending⟩ := h.met uid huid
  exact ⟨d₀, List.mem_cons_of_mem _ hd₀, hpending⟩

theorem CalmWith.andThen {w : Work Db RowKey Change} {R : Type} {eff : Effect Db RowKey Change R}
    (hw : SettlesInvites w.write w.changes ∧ memberships w.changes = [])
    (heff : SettlesInvites eff.write eff.changes ∧ memberships eff.changes = []) :
    SettlesInvites (w.andThen eff).write (w.andThen eff).changes ∧
      memberships (w.andThen eff).changes = [] := by
  obtain ⟨hsettles, hnone⟩ := hw
  obtain ⟨hnext, hadds⟩ := heff
  refine ⟨hsettles.comp hnext, ?_⟩
  rw [memberships] at hnone hadds ⊢
  rw [Work.andThen, List.filterMap_append, hnone, hadds]
  rfl

/-- A calm command. -/
theorem NotBetween.post {β : Type} {c : Command β} (hc : c.Calm) (h : NotBetween met ms o) :
    c.Post (fun _ => True) (JoinsOnce invite) o fun _ => NotBetween met ms := by
  cases c with
  | sql st =>
      simp only [Cmd.Post]
      split
      · rename_i w hw
        refine ⟨fun locked d _ eff heff => h.saw d fun w' hw' => ?_,
          fun locked d _ e _ => h.saw d fun w' hw' => ?_, h.broken⟩
        · cases hw'
          exact CalmWith.andThen (h.work w hw) (hc locked (w.write d) eff heff)
        · cases hw'
      · exact ⟨h, h⟩
  | commit =>
      simp only [Cmd.Post]
      split
      · rename_i w hw
        obtain ⟨hsettles, hnone⟩ := h.work w hw
        refine ⟨⟨hsettles, .inl hnone, fun hne => absurd hnone hne,
          fun hbetween => absurd hbetween h.apart⟩, ⟨⟨h.idle.work, ?_⟩, ?_, h.met⟩, h.broken⟩
        · show joins (o.commits ++ [w.changes]) = ms
          rw [joins_append, hnone, List.append_nil, h.joined]
        · show ¬BetweenCommits (o.commits ++ [w.changes])
          rw [betweenCommits_concat, not_not]
          exact hnone
      · exact ⟨h.idle, h⟩
  | rollback => exact h.idle
  | savepoint => exact hc.elim
  | release => exact hc.elim
  | rollbackTo => exact hc.elim
  | get key => exact fun r => h
  | set key v => exact h
  | incr key => exact fun r => h

theorem NotBetween.warrants {α : Type} {p : App α} (hp : p.Uses Command.Calm)
    (h : NotBetween met ms o) :
    Warrants (fun _ => True) (JoinsOnce invite) (fun _ => NotBetween met ms) p o :=
  Warrants.of_uses (fun _ _ hc ho => NotBetween.post hc ho) hp h

/-- A calm part of a call, and what follows it. -/
theorem NotBetween.seq {α β : Type} {p : App α} {k : α → App β} {M : β → OwnWork → Prop}
    (hp : p.Uses Command.Calm) (h : NotBetween met ms o)
    (hk : ∀ a o', NotBetween met ms o' →
      Warrants (fun _ => True) (JoinsOnce invite) (Returns M) (k a) o') :
    Warrants (fun _ => True) (JoinsOnce invite) (Returns M) (p.bind k) o := by
  apply Warrants.seq fun _ o' => NotBetween met ms o'
  · refine (h.warrants hp).mono fun r o' h' => ?_
    cases r with
    | ok a => exact h'
    | error e => trivial
  · exact hk

/-- A calm program at the end of a call. -/
theorem NotBetween.last {α : Type} {p : App α} (hp : p.Uses Command.Calm)
    (h : NotBetween met ms o) :
    Warrants (fun _ => True) (JoinsOnce invite) (Returns fun _ _ => True) p o := by
  refine (h.warrants hp).mono fun r o' _ => ?_
  cases r <;> trivial

/-- The invite is loaded: one that is found PENDING has been met so. -/
theorem NotBetween.getInvite {β : Type} {uid : String} {k : Option Invite → App β}
    {M : β → OwnWork → Prop} (h : NotBetween none ms o)
    (hk : ∀ found o', (∀ v, found = some v → v.uid = uid ∧ NotBetween none ms o' ∧
      (v.status = .pending → NotBetween (some uid) ms o')) →
        Warrants (fun _ => True) (JoinsOnce invite) (Returns M) (k found) o') :
    Warrants (fun _ => True) (JoinsOnce invite) (Returns M) ((getInviteByUid uid).bind k) o := by
  apply Warrants.read allows_returns
  intro w hw d _
  apply hk
  intro v hfound
  have hcalm : ∀ w', some w = some w' →
      SettlesInvites w'.write w'.changes ∧ memberships w'.changes = [] := by
    intro w' hw'
    cases hw'
    exact h.work w hw
  refine ⟨(Table.find?_eq_some.1 hfound).2, h.saw d hcalm, fun hstatus => ?_⟩
  refine ⟨(h.saw d hcalm).toCalmWith, h.apart, fun uid' huid' => ?_⟩
  cases huid'
  -- the session's own work makes nothing PENDING
  refine ⟨d, List.mem_cons_self .., (h.work w hw).1.keeps d uid ?_⟩
  simp [isPending, hfound, hstatus]

/-- Joining: one membership is committed, when none was before and the invite was PENDING. -/
theorem warrants_addMember (now : Timestamp) (groupUid userUid : String) (role : Option GroupRole)
    (invitedByUid uid : String) (h : NotBetween (some uid) [] o) :
    Warrants (fun _ => True) (JoinsOnce (some uid))
      (Returns fun _ o' => CalmWith [(groupUid, userUid)] o')
      (addMember now groupUid userUid role invitedByUid) o := by
  apply h.seq (calm_select _)
  intro found o₁ h₁
  cases found with
  | some m => trivial
  | none =>
      apply Warrants.sql allows_returns
      rintro w hw locked d - eff heff
      obtain ⟨hsettles, hnone⟩ := h₁.work w hw
      have heffect : SettlesInvites eff.write eff.changes ∧
          memberships eff.changes = [(groupUid, userUid)] := by
        simp only [insertNewMember] at heff
        split at heff
        · cases heff
        · rename_i m hm
          have hkey : (m.groupUid, m.userUid) = (groupUid, userUid) := by
            simp only [newMember] at hm
            split at hm
            · cases hm
            · cases hm
              rfl
          simp only [insertMemberRow] at heff
          split at heff
          · cases heff
          · split at heff
            · cases heff
            · cases heff
              refine ⟨.of_invites (fun _ => rfl) rfl, ?_⟩
              rw [← hkey]
              rfl
      have hjoins : memberships (w.andThen eff).changes = [(groupUid, userUid)] := by
        have hadds := heffect.2
        rw [memberships] at hnone hadds ⊢
        rw [Work.andThen, List.filterMap_append, hnone, hadds]
        rfl
      apply Warrants.commit allows_returns rfl
      · refine ⟨hsettles.comp heffect.1, .inr ⟨h₁.joined, by rw [hjoins]; rfl⟩,
          fun _ uid' huid' => ?_,
          fun hbetween => absurd hbetween h₁.apart⟩
        obtain ⟨d₀, hd₀, hpending⟩ := h₁.met uid' huid'
        exact ⟨d₀, List.mem_cons_of_mem _ hd₀, hpending⟩
      · have hafter : CalmWith [(groupUid, userUid)]
            ⟨some {}, d :: o₁.seen, o₁.commits ++ [(w.andThen eff).changes]⟩ := by
          refine ⟨h₁.idle.work, ?_⟩
          show joins (o₁.commits ++ [(w.andThen eff).changes]) = _
          rw [joins_append, h₁.joined, hjoins]
          rfl
        apply Warrants.read allows_returns
        intro w' hw' d' _
        cases (w'.write d').members.find? (groupUid, userUid) with
        | none => trivial
        | some m =>
            cases hw'
            exact ⟨hafter.work, hafter.joined⟩

/-- The flush of the acceptance, after the commit of the membership. -/
theorem warrants_flushAccepted (now : Timestamp) (uid userUid : String) (h : CalmWith ms o) :
    Warrants (fun _ => True) (JoinsOnce (some uid))
      (Returns fun _ o' => ∃ w, Accepting uid ms w o') (flushAccepted now uid userUid) o := by
  apply Warrants.sql allows_returns
  rintro w hw locked d - eff heff
  have hwork :=
      CalmWith.andThen (h.work w hw) (calm_updateInviteRow now uid userUid locked _ eff heff)
  simp only [updateInviteRow] at heff
  split at heff
  · cases heff
    refine ⟨_, rfl, hwork.1, hwork.2, ?_, h.joined⟩
    rw [acceptances, Work.andThen, List.filterMap_append]
    exact List.mem_append_right _ (List.mem_singleton_self uid)
  · cases heff
    trivial

/-- The commit of the acceptance. -/
theorem warrants_commitAccepted {β : Type} {uid : String} {w : Work Db RowKey Change}
    {k : Unit → App β} {M : β → OwnWork → Prop} (h : Accepting uid ms w o)
    (hk : ∀ o', NotBetween none ms o' →
      Warrants (fun _ => True) (JoinsOnce (some uid)) (Returns M) (k ()) o') :
    Warrants (fun _ => True) (JoinsOnce (some uid)) (Returns M) (commit.bind k) o := by
  apply Warrants.commit allows_returns h.work
  · refine ⟨h.settles, .inl h.calm, fun hne => absurd h.calm hne, fun _ uid' huid' => ?_⟩
    cases huid'
    exact h.accepts
  · refine hk _ ⟨⟨fun w' hw' => ?_, ?_⟩, ?_, by simp⟩
    · cases hw'
      exact ⟨.of_invites (fun _ => rfl) rfl, rfl⟩
    · rw [joins_append, h.calm, List.append_nil, h.joined]
    · rw [betweenCommits_concat, not_not]
      exact h.calm

theorem warrants_acceptInvite (now : Timestamp) (v : Invite) (userUid : String)
    (hmet : v.status = .pending → NotBetween (some v.uid) [] o) :
    Warrants (fun _ => True) (JoinsOnce (some v.uid)) (Returns fun _ _ => True)
      (acceptInvite now v userUid) o := by
  unfold acceptInvite
  split
  · rename_i groupUid hstatus hgroup
    have hnothing : (.ret () : App Unit).Uses Command.Calm := trivial
    apply (hmet hstatus).seq (calm_isGroupInviteStillValid now hnothing v groupUid)
    intro valid o₁ h₁
    cases valid with
    | false => trivial
    | true =>
        apply Warrants.seq fun _ o' => CalmWith [(groupUid, userUid)] o'
        · refine (warrants_addMember now groupUid userUid _ _ _ h₁).mono fun r o' h' => ?_
          cases r with
          | ok m => exact h'
          | error e => trivial
        · intro m o₂ h₂
          apply Warrants.seq fun _ o' => ∃ w, Accepting v.uid [(groupUid, userUid)] w o'
          · refine (warrants_flushAccepted now v.uid userUid h₂).mono fun r o' h' => ?_
            cases r with
            | ok u => exact h'
            | error e => trivial
          · rintro _ o₃ ⟨w, h₃⟩
            apply warrants_commitAccepted h₃
            intro o₄ h₄
            exact h₄.last (calm_refreshInvite v.uid)
  · trivial

theorem calm_flushReferral (user : User) (inviterUid : String) :
    (flushReferral user inviterUid).Uses Command.Calm :=
  calm_whenever (calm_flushUser _ _)

theorem calm_commit : (commit : App Unit).Uses Command.Calm := Prog.uses_perform trivial

theorem warrants_consumeInviteForSignup (now : Timestamp) (inviteUid : String) (newUser : User)
    (h : NotBetween none [] o) :
    Warrants (fun _ => True) (JoinsOnce (some inviteUid)) (Returns fun _ _ => True)
      (consumeInviteForSignup now inviteUid newUser) o := by
  apply h.getInvite
  intro found o₁ hfound
  split
  · trivial
  rename_i v
  obtain ⟨huid, h₁, hmet⟩ := hfound v rfl
  split
  · trivial
  · rename_i hstatus
    have hreferral := calm_flushReferral newUser v.inviterUid
    split
    · apply h₁.last
      apply hreferral.bind
      intro _
      exact calm_commit
    · rename_i groupUid hgroup
      have hpending : NotBetween (some inviteUid) [] o₁ := hmet (by simpa using hstatus)
      apply hpending.seq (calm_isGroupInviteStillValid now hreferral v groupUid)
      intro valid o₂ h₂
      apply h₂.seq (calm_whenever hreferral)
      intro _ o₃ h₃
      cases valid with
      | false => exact h₃.last calm_commit
      | true =>
          rw [← huid] at h₃ ⊢
          apply Warrants.bind
          apply Warrants.seq fun _ o' => CalmWith [(groupUid, newUser.uid)] o'
          · refine (warrants_addMember now groupUid newUser.uid _ _ _ h₃).mono fun r o' h' => ?_
            cases r with
            | ok m => exact h'
            | error e => trivial
          · intro m o₄ h₄
            refine (warrants_flushAccepted now v.uid newUser.uid h₄).mono fun r o' h' => ?_
            cases r with
            | error e => trivial
            | ok u =>
                obtain ⟨w, h₅⟩ := h'
                have hdone := warrants_commitAccepted (k := .ret) (M := fun _ _ => True) h₅
                  fun _ _ => trivial
                exact hdone
theorem warrants_acceptEndpoint (now : Timestamp) (credentials : Credentials) (inviteUid : String)
    (h : NotBetween none [] o) :
    Warrants (fun _ => True) (JoinsOnce (some inviteUid)) (Returns fun _ _ => True)
      (Invites.acceptInvite now credentials inviteUid) o := by
  apply h.seq (calm_getCurrentUser credentials)
  intro user o₁ h₁
  apply h₁.getInvite
  intro found o₂ hfound
  cases found with
  | none => trivial
  | some v =>
      obtain ⟨rfl, -, hmet⟩ := hfound v rfl
      exact warrants_acceptInvite now v user.uid hmet

theorem calm_signIn (be : Backend) (uid : String) (nicknames : ℕ → String) (info : GoogleInfo)
    (found : Option User) : (Auth.signIn be uid nicknames info found).Uses Command.Calm := by
  cases found with
  | none => exact calm_firstLogin be uid nicknames info
  | some user => exact calm_updateUserProfile user info.name info.picture

theorem warrants_googleLogin (be : Backend) (now : Timestamp) (uid : String)
    (nicknames : ℕ → String) (info : Option GoogleInfo) (inviteUid : Option String)
    (h : NotBetween none [] o) :
    Warrants (fun _ => True) (JoinsOnce inviteUid) (Returns fun _ _ => True)
      (Auth.googleLogin be now uid nicknames info inviteUid) o := by
  cases info with
  | none => trivial
  | some info =>
      apply h.seq (calm_getUserByGoogleSub info.sub)
      intro found o₁ h₁
      apply h₁.seq (calm_signIn be uid nicknames info found)
      intro user o₂ h₂
      split
      · apply Warrants.seq fun _ _ => True
        · have hconsume : Warrants (fun _ => True) (JoinsOnce inviteUid)
              (Returns fun _ _ => True)
              (Auth.consumeForNewUser now found.isNone inviteUid user) o₂ := by
            unfold Auth.consumeForNewUser whenever
            split
            · split
              · exact warrants_consumeInviteForSignup now _ user h₂
              · trivial
            · trivial
          refine hconsume.mono fun r o' _ => ?_
          cases r <;> trivial
        · intro _ _ _
          trivial
      · trivial

/-- A call commits one membership at most, through the invite it names. -/
theorem warrants_inviteCall (be : Backend) (now : Timestamp) (call : InviteCall) :
    Warrants (fun _ => True) (JoinsOnce call.invite) (Returns fun _ _ => True)
      (call.program be now) {} := by
  have hdone : ∀ {α : Type} {p : App α},
      Warrants (fun _ => True) (JoinsOnce call.invite) (Returns fun _ _ => True) p {} →
      Warrants (fun _ => True) (JoinsOnce call.invite) (Returns fun _ _ => True)
        (withSession (p.bind fun _ => .ret ())) {} := by
    intro α p hp
    apply warrants_withSession
    apply Warrants.bind
    refine hp.mono fun r o' _ => ?_
    cases r <;> trivial
  cases call with
  | accept credentials inviteUid =>
      exact hdone (warrants_acceptEndpoint now credentials inviteUid notBetween_new)
  | signup uid nicknames info inviteUid =>
      exact hdone (warrants_googleLogin be now uid nicknames info inviteUid notBetween_new)

end Call

/-! ## All calls -/

section Pool

variable {ι : Type} [DecidableEq ι]

/-- A call commits a membership only when its invite is PENDING still if the call has met it so,
and when no other call through the invite stands between its two commits. -/
def InTurn (calls : ι → InviteCall) (i : ι) (s s' : State ι) : Prop :=
  joins (s'.commits i) ≠ joins (s.commits i) → ∀ uid, (calls i).invite = some uid →
    StatusStands uid (s.seen i) s.db ∧
      ∀ j, j ≠ i → (calls j).invite = some uid → ¬BetweenCommits (s.commits j)

/-- What the calls have committed, and the invites. -/
structure InviteLaw (calls : ι → InviteCall) (d : Db) (commits : ι → List (List Change)) :
    Prop where
  settled : ∀ i, ∀ uid ∈ accepts (commits i), isPending uid d = false
  once : ∀ i, (joins (commits i)).length ≤ 1
  followed : ∀ i uid, (calls i).invite = some uid → joins (commits i) ≠ [] →
    BetweenCommits (commits i) ∨ uid ∈ accepts (commits i)
  alone : ∀ i j uid, i ≠ j → (calls i).invite = some uid → (calls j).invite = some uid →
    joins (commits i) = [] ∨ joins (commits j) = []

theorem accepts_append (commits : List (List Change)) (changes : List Change) :
    accepts (commits ++ [changes]) = accepts commits ++ acceptances changes := by
  simp [accepts, acceptances]

/-- One commit keeps the law. -/
theorem InviteLaw.commit {calls : ι → InviteCall} {i : ι} {s s' : State ι}
    (hfact : JoinsOnce (calls i).invite (s.tx i).work (s.seen i) (s.commits i))
    (hturn : InTurn calls i s s')
    (hdb : s'.db = (s.tx i).work.write s.db)
    (hcommits : s'.commits = Function.update s.commits i (s.commits i ++ [(s.tx i).work.changes]))
    (h : InviteLaw calls s.db s.commits) : InviteLaw calls s'.db s'.commits := by
  have hself : s'.commits i = s.commits i ++ [(s.tx i).work.changes] := by
    rw [hcommits, Function.update_self]
  have hother : ∀ j, j ≠ i → s'.commits j = s.commits j := by
    intro j hj
    rw [hcommits, Function.update_of_ne hj]
  have hjoins : joins (s'.commits i) =
      joins (s.commits i) ++ memberships (s.tx i).work.changes := by
    rw [hself, joins_append]
  -- an invite that was settled stays so
  have hkept : ∀ uid, isPending uid s.db = false → isPending uid s'.db = false := by
    intro uid huid
    cases hafter : isPending uid s'.db with
    | false => rfl
    | true =>
        rw [hdb] at hafter
        rw [hfact.settles.keeps _ _ hafter] at huid
        cases huid
  -- a call that joins now is the only one to have joined
  have hfirst : ∀ j uid, j ≠ i → (calls i).invite = some uid → (calls j).invite = some uid →
      joins (s'.commits i) = [] ∨ joins (s.commits j) = [] := by
    intro j uid hj hi hinv
    by_cases hsame : joins (s'.commits i) = joins (s.commits i)
    · rw [hsame]
      exact h.alone i j uid (Ne.symm hj) hi hinv
    · obtain ⟨hstands, hapart⟩ := hturn hsame uid hi
      have hadds : memberships (s.tx i).work.changes ≠ [] := by
        intro hnone
        rw [hjoins, hnone, List.append_nil] at hsame
        exact hsame rfl
      obtain ⟨d₀, hd₀, hmet⟩ := hfact.found hadds uid hi
      have hpending : isPending uid s.db = true := hstands d₀ hd₀ hmet
      by_contra hboth
      rw [not_or] at hboth
      -- the other call has committed that the invite is ACCEPTED
      rcases h.followed j uid hinv hboth.2 with hbetween | haccepted
      · exact hapart j hj hinv hbetween
      · rw [h.settled j uid haccepted] at hpending
        cases hpending
  constructor
  · intro j uid huid
    by_cases hj : j = i
    · rw [hj, hself, accepts_append, List.mem_append] at huid
      rcases huid with hold | hnew
      · exact hkept uid (h.settled i uid hold)
      · rw [hdb]
        exact hfact.settles.settles uid hnew s.db
    · rw [hother j hj] at huid
      exact hkept uid (h.settled j uid huid)
  · intro j
    by_cases hj : j = i
    · rw [hj, hjoins]
      rcases hfact.once with hnone | ⟨hbefore, hone⟩
      · rw [hnone, List.append_nil]
        exact h.once i
      · rw [hbefore, List.nil_append, hone]
    · rw [hother j hj]
      exact h.once j
  · intro j uid hinv hjoined
    by_cases hj : j = i
    · subst hj
      rw [hself, accepts_append, betweenCommits_concat]
      by_cases hadds : memberships (s.tx j).work.changes = []
      · rw [hjoins, hadds, List.append_nil] at hjoined
        refine .inr (List.mem_append.2 ?_)
        rcases h.followed j uid hinv hjoined with hbetween | haccepted
        · exact .inr (hfact.next hbetween uid hinv)
        · exact .inl haccepted
      · exact .inl hadds
    · rw [hother j hj] at hjoined ⊢
      exact h.followed j uid hinv hjoined
  · intro j k uid hjk hj hk
    by_cases hji : j = i
    · subst hji
      rw [hother k (Ne.symm hjk)]
      exact hfirst k uid (Ne.symm hjk) hj hk
    · rw [hother j hji]
      by_cases hki : k = i
      · subst hki
        exact (hfirst j uid hji hk hj).symm
      · rw [hother k hki]
        exact h.alone j k uid hjk hj hk

end Pool

/-- In every run in which an invite that a call has met PENDING is PENDING still when the call
commits its membership, and no other call through it stands between its two commits then, at most
one user joins through an invite. -/
theorem invite_one_shot {ι : Type} [DecidableEq ι] (be : Backend) (now : ι → Timestamp)
    (calls : ι → InviteCall) {c c' : Config ι Exc Command (State ι) Unit} (hidle : Idle c.state)
    (hcalls : ∀ i, c.thread i = (calls i).program be (now i))
    (hrun : Run (sessions (InTurn calls)) c c') (uid : String) {i j : ι}
    (hi : (calls i).invite = some uid) (hj : (calls j).invite = some uid)
    {m m' : String × String} (hm : m ∈ joins (c'.state.commits i))
    (hm' : m' ∈ joins (c'.state.commits j)) : i = j ∧ m = m' := by
  have hwarrant : AllWarrant (fun k => JoinsOnce (calls k).invite) (InTurn calls)
      (fun _ => Returns fun _ _ => True) c := by
    apply AllWarrant.of_idle (A := fun _ => True) (fun _ _ _ _ => trivial) hidle
    intro k
    rw [hcalls k]
    exact warrants_inviteCall be (now k) (calls k)
  have hstart : InviteLaw calls c.state.db c.state.commits := by
    constructor
    · intro k u hu
      rw [hidle.commits k] at hu
      cases hu
    · intro k
      rw [hidle.commits k]
      exact Nat.zero_le 1
    · intro k u _ hjoined
      rw [hidle.commits k] at hjoined
      exact absurd rfl hjoined
    · intro k l u _ _ _
      rw [hidle.commits k]
      exact .inl rfl
  have hlaw : InviteLaw calls c'.state.db c'.state.commits :=
    hwarrant.induct (fun k s s' hfact hturn hdb hcommits hJ =>
      InviteLaw.commit hfact hturn hdb hcommits hJ) hrun hstart
  have hij : i = j := by
    by_contra hne
    rcases hlaw.alone i j uid hne hi hj with hnone | hnone
    · rw [hnone] at hm
      cases hm
    · rw [hnone] at hm'
      cases hm'
  refine ⟨hij, ?_⟩
  subst hij
  have hlength : (joins (c'.state.commits i)).length = 1 :=
    le_antisymm (hlaw.once i) (List.length_pos_of_mem hm)
  obtain ⟨a, ha⟩ := List.length_eq_one_iff.1 hlength
  rw [ha, List.mem_singleton] at hm hm'
  rw [hm, hm']

instance (commits : List (List Change)) : Decidable (BetweenCommits commits) :=
  inferInstanceAs (Decidable (∃ changes ∈ commits.getLast?, memberships changes ≠ []))

instance (uid : String) (seen : List Db) (d : Db) : Decidable (StatusStands uid seen d) :=
  inferInstanceAs (Decidable (∀ d₀ ∈ seen, isPending uid d₀ = true → isPending uid d = true))

instance decidableInTurn {ι : Type} [DecidableEq ι] [Fintype ι] (calls : ι → InviteCall) (i : ι)
    (s s' : State ι) : Decidable (InTurn calls i s s') :=
  inferInstanceAs (Decidable (joins (s'.commits i) ≠ joins (s.commits i) →
    ∀ uid ∈ (calls i).invite, StatusStands uid (s.seen i) s.db ∧ ∀ j, j ≠ i →
      (calls j).invite = some uid → ¬BetweenCommits (s.commits j)))

namespace Sample

/-- The PENDING invite of an owner into its group. -/
def groupInvite : Invite where
  uid := "v"
  inviterUid := "o"
  groupUid := some "g"
  groupRole := some .viewer
  createdAt := some 0

/-- An owner's PENDING invite into a group, and two other users. -/
def oneInvite : Db :=
  { Db.empty with
    users := ⟨[user "o", user "a", user "b"], by decide⟩
    groups := ⟨[{ uid := "g", name := "Camps", visibility := .inviteOnly }], by decide⟩
    members := ⟨[{ groupUid := "g", userUid := "o", role := .owner }], by decide⟩
    invites := ⟨[groupInvite], by decide⟩ }

/-- The two users accept the invite. -/
def bothAccept (b : Bool) : InviteCall := .accept (.access (if b then "b" else "a")) "v"

/-- A pool at its start. -/
def accepting : Config Bool Exc Command (State Bool) Unit :=
  ⟨World.fresh oneInvite, fun b => (bothAccept b).program backend 0⟩

end Sample

/-- One user accepts, and the other one after it: only the first one joins. -/
theorem invite_one_shot_two :
    ∃ c', Run (sessions (InTurn Sample.bothAccept)) Sample.accepting c' ∧
      joins (c'.state.commits false) = [("g", "a")] ∧
      ∀ j m, m ∈ joins (c'.state.commits j) → false = j ∧ ("g", "a") = m := by
  have hrun : (follow (guardExec (fun i => exec i) (InTurn Sample.bothAccept))
      (List.replicate 12 false ++ List.replicate 3 true) Sample.accepting).any
      (fun c => joins (c.state.commits false) = [("g", "a")]) = true := by
    decide +kernel
  obtain ⟨c', hfollow, hjoined⟩ := (Option.any_eq_true _ _).1 hrun
  have hguarded : Run (sessions (InTurn Sample.bothAccept)) Sample.accepting c' :=
    Run.of_guardExec (run_of_follow hfollow)
  have hfirst : joins (c'.state.commits false) = [("g", "a")] := by simpa using hjoined
  refine ⟨c', hguarded, hfirst, fun j m hm => ?_⟩
  exact invite_one_shot Sample.backend (fun _ => 0) Sample.bothAccept (idle_fresh _)
    (fun _ => rfl) hguarded "v" rfl rfl (by rw [hfirst]; exact List.mem_singleton_self _) hm

/-- Both calls find the invite PENDING, and both users join through it. -/
theorem invite_used_twice :
    ∃ c', Run platform Sample.accepting c' ∧
      joins (c'.state.commits false) = [("g", "a")] ∧
      joins (c'.state.commits true) = [("g", "b")] := by
  have hrun : (follow (fun i => exec i)
      (List.replicate 5 false ++ List.replicate 12 true ++ List.replicate 7 false)
      Sample.accepting).any (fun c => joins (c.state.commits false) = [("g", "a")] ∧
        joins (c.state.commits true) = [("g", "b")]) = true := by
    decide +kernel
  obtain ⟨c', hrun', h⟩ := exists_run_of_schedule _ hrun
  have hboth : joins (c'.state.commits false) = [("g", "a")] ∧
      joins (c'.state.commits true) = [("g", "b")] := by simpa using h
  exact ⟨c', hrun', hboth.1, hboth.2⟩

end Vivac
