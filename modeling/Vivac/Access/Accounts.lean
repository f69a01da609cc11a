import Vivac.Access.ReadingChecks
import Vivac.Endpoints.AdminAuth
import Vivac.Lib.Arrivals

/-!
# Accounts

A user row belongs to one Google account for good: no request deletes a user, gives it another
subject of Google's, or makes one under a uid that was drawn for somebody else (`AccountsKept`). So
a login answers the uid of the account that it was made with, whatever the others do in the meantime
(`warrants_googleLogin`), and every other program that asks for a user answers one who was there.
-/

set_option autoImplicit false

namespace Vivac.Access

open Lib App

/-- The Google account that a user belongs to. -/
def accountOf (d : Db) (uid : String) : Option String := (d.users.find? uid).map User.googleSub

/-- Users keep their accounts, and a new user has the account that its uid was drawn for. -/
def AccountsKept (drawn : String → String) (d d' : Db) : Prop :=
  ∀ uid, accountOf d' uid = accountOf d uid ∨
    accountOf d uid = none ∧ accountOf d' uid = some (drawn uid)

/-- The account of a uid, in every database that `start` leads to. -/
def ownerOf (drawn : String → String) (start : Db) (uid : String) : String :=
  (accountOf start uid).getD (drawn uid)

section Kept

variable {drawn : String → String} {d d' d'' start : Db} {uid : String}

theorem AccountsKept.refl (d : Db) : AccountsKept drawn d d := fun _ => .inl rfl

theorem AccountsKept.trans (h : AccountsKept drawn d d') (h' : AccountsKept drawn d' d'') :
    AccountsKept drawn d d'' := by
  intro uid
  rcases h uid with hsame | ⟨hnone, hnew⟩
  · rw [← hsame]
    exact h' uid
  · rcases h' uid with hsame | ⟨hnone', -⟩
    · exact .inr ⟨hnone, hsame.trans hnew⟩
    · rw [hnew] at hnone'
      cases hnone'

/-- A user belongs to the account of its uid. -/
theorem AccountsKept.googleSub_eq (h : AccountsKept drawn start d) {user : User}
    (huser : d.users.find? uid = some user) : user.googleSub = ownerOf drawn start uid := by
  have haccount : accountOf d uid = some user.googleSub :=
      congrArg (Option.map User.googleSub) huser
  unfold ownerOf
  rcases h uid with hsame | ⟨hnone, hnew⟩
  · rw [← hsame, haccount]
    rfl
  · rw [hnew] at haccount
    rw [hnone]
    exact (Option.some.inj haccount).symm

/-- The user of a uid that is drawn for it belongs to the account that it was drawn for. -/
theorem ownerOf_of_new (h : start.users.find? uid = none) :
    ownerOf drawn start uid = drawn uid := by
  unfold ownerOf accountOf
  rw [h]
  rfl

end Kept

/-! ## Statements -/

/-- Every write of the command keeps the accounts, and it is none of a savepoint. -/
def KeepsAccounts (drawn : String → String) : {β : Type} → Command β → Prop
  | _, .sql st => ∀ locked d eff, st locked d = .ok eff → ∀ d', AccountsKept drawn d' (eff.write d')
  | _, .savepoint => False
  | _, .release => False
  | _, .rollbackTo => False
  | _, _ => True

section Statements

variable {drawn : String → String} {R : Type}

theorem moves_of_keepsAccounts {β : Type} (c : Command β) (h : KeepsAccounts drawn c) :
    Cmd.Moves (AccountsKept drawn) c := by
  cases c with
  | sql st => exact h
  | _ => trivial

/-- A write that leaves the users alone. -/
theorem AccountsKept.of_users {f : Db → Db} (hf : ∀ d, (f d).users = d.users) (d : Db) :
    AccountsKept drawn d (f d) := by
  intro uid
  left
  unfold accountOf
  rw [hf]

/-- A user that keeps its subject keeps its account. -/
theorem AccountsKept.rewriteUser {f : Rewrite User.uid}
    (hf : ∀ u u', f.apply u = some u' → u'.googleSub = u.googleSub) (target : String) (d : Db) :
    AccountsKept drawn d (rewriteUser target f d) := by
  intro uid
  left
  unfold accountOf Vivac.rewriteUser
  rw [Table.find?_rewrite, Option.map_map]
  congr 1
  funext u
  dsimp only [Function.comp]
  split
  · cases hu : f.apply u with
    | none => rfl
    | some u' => exact hf u u' hu
  · rfl

/-- A new user has the account that its uid was drawn for. -/
theorem AccountsKept.insertUser {u : User} (hu : u.googleSub = drawn u.uid) (d : Db) :
    AccountsKept drawn d { d with users := d.users.insert u } := by
  intro uid
  unfold accountOf
  dsimp only
  by_cases huid : u.uid = uid
  · subst huid
    cases hold : d.users.find? u.uid with
    | none =>
        right
        rw [Table.find?_insert_self hold]
        exact ⟨rfl, congrArg some hu⟩
    | some v =>
        left
        rw [Table.find?_insert_of_some hold]
  · left
    rw [Table.find?_insert_of_ne huid]

theorem admits_keepsAccounts : Admits (KeepsAccounts drawn) where
  read f := by
    rintro locked d eff heff d'
    cases heff
    exact AccountsKept.refl d'
  commit := trivial
  rollback := trivial
  incr _ := trivial

theorem keepsAccounts_insertUserRow {u : User} (hu : u.googleSub = drawn u.uid) :
    KeepsAccounts drawn (.sql (insertUserRow u) : Command Unit) := by
  intro locked d eff heff d'
  unfold insertUserRow at heff
  split at heff
  · cases heff
  · cases heff
    exact AccountsKept.insertUser hu d'

theorem keepsAccounts_updateUserRow {f : Rewrite User.uid} (uid : String)
    (hf : ∀ u u', f.apply u = some u' → u'.googleSub = u.googleSub) :
    KeepsAccounts drawn (.sql (updateUserRow uid f) : Command Bool) := by
  intro locked d eff heff d'
  unfold updateUserRow at heff
  split at heff
  · cases heff
    exact AccountsKept.rewriteUser hf uid d'
  · cases heff
    exact AccountsKept.refl d'

theorem keepsAccounts_updateInviteRow (uid : String) (f : Rewrite Invite.uid) :
    KeepsAccounts drawn (.sql (updateInviteRow uid f) : Command Bool) := by
  intro locked d eff heff d'
  unfold updateInviteRow at heff
  split at heff
  · cases heff
    exact AccountsKept.of_users (fun _ => rfl) d'
  · cases heff
    exact AccountsKept.refl d'

theorem keepsAccounts_insertNewMember (now : Timestamp) (groupUid userUid : String)
    (role : Option GroupRole) (invitedByUid : String) :
    KeepsAccounts drawn
      (.sql (insertNewMember now groupUid userUid role invitedByUid) : Command Unit) := by
  intro locked d eff heff d'
  unfold insertNewMember insertMemberRow at heff
  split at heff
  · cases heff
  · split at heff
    · cases heff
    · split at heff
      · cases heff
      · cases heff
        exact AccountsKept.of_users (fun _ => rfl) d'

end Statements

/-! ## Programs of a login -/

section Programs

variable {drawn : String → String} (be : Backend) (now : Timestamp)

theorem uses_flushUser {f : Rewrite User.uid} (uid : String)
    (hf : ∀ u u', f.apply u = some u' → u'.googleSub = u.googleSub) :
    (flushUser uid f).Uses (KeepsAccounts drawn) := by
  apply (Prog.uses_perform (keepsAccounts_updateUserRow uid hf)).bind
  intro found
  split <;> trivial

theorem uses_refreshUser (uid : String) : (refreshUser uid).Uses (KeepsAccounts drawn) := by
  apply admits_keepsAccounts.read_bind
  intro found
  cases found <;> trivial

theorem uses_getUserByGoogleSub (googleSub : String) :
    (getUserByGoogleSub googleSub).Uses (KeepsAccounts drawn) :=
  admits_keepsAccounts.read_bind fun _ => Prog.uses_ofExcept _

theorem readOnly_generateUniqueNickname (candidates : List String) :
    ReadOnly (generateUniqueNickname candidates) := by
  induction candidates with
  | nil => exact .raise _
  | cons candidate candidates ih =>
      apply (ReadOnly.select _).bind
      intro found
      apply (ReadOnly.ofExcept _).bind
      intro taken
      cases taken with
      | none => exact .ret _
      | some _ => exact ih

theorem uses_of_readOnly {α : Type} {p : App α} (h : ReadOnly p) :
    p.Uses (KeepsAccounts drawn) := h.uses admits_keepsAccounts.read

theorem uses_createUser {uid : String} (nicknames : ℕ → String) {info : GoogleInfo}
    (huid : drawn uid = info.sub) :
    (createUser be uid nicknames info).Uses (KeepsAccounts drawn) := by
  apply (uses_of_readOnly (readOnly_generateUniqueNickname _)).bind
  intro nickname
  apply (Prog.uses_perform (keepsAccounts_insertUserRow huid.symm)).bind
  intro _
  exact admits_keepsAccounts.commit_bind (uses_refreshUser uid)

theorem uses_updateUserProfile (user : User) (name picture : Option String) :
    (updateUserProfile user name picture).Uses (KeepsAccounts drawn) := by
  apply (Admits.whenever (uses_flushUser user.uid fun u u' hu => ?_)).bind
  · intro _
    exact admits_keepsAccounts.commit_bind (uses_refreshUser _)
  · cases hu
    rfl

theorem uses_signIn {uid : String} (nicknames : ℕ → String) {info : GoogleInfo}
    (huid : drawn uid = info.sub) (found : Option User) :
    (Auth.signIn be uid nicknames info found).Uses (KeepsAccounts drawn) := by
  cases found with
  | some user => exact uses_updateUserProfile user info.name info.picture
  | none =>
      apply (uses_createUser be nicknames huid).tryCatch
      intro e
      split
      · apply (Prog.uses_perform admits_keepsAccounts.rollback).bind
        intro _
        apply (uses_getUserByGoogleSub _).bind
        intro found
        cases found <;> trivial
      · trivial

theorem uses_isGroupInviteStillValid {autoflush : App Unit}
    (h : autoflush.Uses (KeepsAccounts drawn)) (invite : Invite) (groupUid : String) :
    (isGroupInviteStillValid now autoflush invite groupUid).Uses (KeepsAccounts drawn) := by
  unfold isGroupInviteStillValid
  split
  · trivial
  · apply h.bind
    intro _
    apply admits_keepsAccounts.read_bind
    intro group
    cases group with
    | none => trivial
    | some group =>
        dsimp only
        split
        · trivial
        · exact admits_keepsAccounts.read_bind fun _ => trivial

theorem uses_addMember (groupUid userUid : String) (role : Option GroupRole)
    (invitedByUid : String) :
    (addMember now groupUid userUid role invitedByUid).Uses (KeepsAccounts drawn) := by
  apply admits_keepsAccounts.read_bind
  intro found
  cases found with
  | some m => trivial
  | none =>
      apply (Prog.uses_perform (keepsAccounts_insertNewMember now groupUid userUid role _)).bind
      intro _
      apply admits_keepsAccounts.commit_bind
      apply admits_keepsAccounts.read_bind
      intro m
      cases m <;> trivial

theorem uses_flushAccepted (uid userUid : String) :
    (flushAccepted now uid userUid).Uses (KeepsAccounts drawn) := by
  apply (Prog.uses_perform (keepsAccounts_updateInviteRow uid _)).bind
  intro found
  split <;> trivial

theorem uses_consumeInviteForSignup (inviteUid : String) (newUser : User) :
    (consumeInviteForSignup now inviteUid newUser).Uses (KeepsAccounts drawn) := by
  have hreferral : ∀ inviterUid, (flushReferral newUser inviterUid).Uses (KeepsAccounts drawn) := by
    intro inviterUid
    refine Admits.whenever (uses_flushUser newUser.uid fun u u' hu => ?_)
    cases hu
    rfl
  have hcommit : (commit : App Unit).Uses (KeepsAccounts drawn) :=
    Prog.uses_perform admits_keepsAccounts.commit
  apply admits_keepsAccounts.read_bind
  intro found
  cases found with
  | none => trivial
  | some invite =>
      dsimp only
      split
      · trivial
      · split
        · exact (hreferral _).bind fun _ => hcommit
        · rename_i groupUid hgroup
          apply (uses_isGroupInviteStillValid now (hreferral _) invite groupUid).bind
          intro valid
          apply (Admits.whenever (hreferral _)).bind
          intro _
          refine Prog.Uses.bind (Admits.whenever ?_) fun _ => hcommit
          exact (uses_addMember now groupUid newUser.uid _ _).bind fun _ =>
            uses_flushAccepted now invite.uid newUser.uid

theorem uses_consumeForNewUser (isNewUser : Bool) (inviteUid : Option String) (user : User) :
    (Auth.consumeForNewUser now isNewUser inviteUid user).Uses (KeepsAccounts drawn) := by
  cases inviteUid with
  | none => trivial
  | some inviteUid => exact Admits.whenever (uses_consumeInviteForSignup now inviteUid user)

theorem uses_googleLogin {uid : String} (nicknames : ℕ → String) {info : Option GoogleInfo}
    (huid : ∀ i, info = some i → drawn uid = i.sub) (inviteUid : Option String) :
    (Auth.googleLogin be now uid nicknames info inviteUid).Uses (KeepsAccounts drawn) := by
  cases info with
  | none => trivial
  | some info =>
      apply (uses_getUserByGoogleSub info.sub).bind
      intro found
      apply (uses_signIn be nicknames (huid info rfl) found).bind
      intro user
      split
      · exact (uses_consumeForNewUser now _ inviteUid user).bind fun _ => trivial
      · trivial

theorem readOnly_refresh {Token : Type} (jwt : Jwt Token) (token : Token) :
    ReadOnly (Auth.refresh jwt now token) := by
  unfold Auth.refresh
  split
  · exact .raise _
  · split
    · apply (ReadOnly.select _).bind
      intro found
      cases found with
      | none => exact .raise _
      | some user =>
          dsimp only
          split
          · exact .ret _
          · exact .raise _
    · exact .raise _

theorem readOnly_me {Token : Type} (jwt : Jwt Token) (bearer : Option Token) :
    ReadOnly (Auth.me jwt now bearer) := readOnly_getCurrentUser _

theorem readOnly_adminGoogleLogin (dbLower : String → String) (cfg : TokenSettings)
    (info : Option GoogleInfo) : ReadOnly (AdminAuth.adminGoogleLogin be dbLower cfg info) := by
  unfold AdminAuth.adminGoogleLogin verifyStaffGoogleLogin
  cases info with
  | none => exact .raise _
  | some info =>
      dsimp only
      split
      · exact .raise _
      · split
        · have hfind : ReadOnly (getUserByEmail be dbLower info.email) :=
            (ReadOnly.select _).bind fun _ => ReadOnly.ofExcept _
          apply hfind.bind
          intro found
          cases found with
          | none => exact .raise _
          | some user =>
              dsimp only
              split
              · split
                · exact .ret _
                · exact .raise _
              · exact .raise _
        · exact .raise _

end Programs

/-! ## What a login answers -/

/-- The session has met a database in which the user is as it says. -/
def HasMet (user : User) (o : Own Db RowKey Change) : Prop :=
  ∃ d ∈ o.seen, d.users.find? user.uid = some user

section Answers

variable {drawn : String → String} {start : Db} {o : Own Db RowKey Change} {α : Type}

/-- Sessions that meet databases which keep the accounts of `start`, and promise nothing. -/
abbrev Answers (drawn : String → String) (start : Db) (M : α → Own Db RowKey Change → Prop)
    (p : App α) (o : Own Db RowKey Change) : Prop :=
  Warrants (AccountsKept drawn start) (fun _ _ _ => True) (Returns M) p o

/-- After a commit the transaction is empty. -/
theorem answers_commit {M : α → Own Db RowKey Change → Prop} {k : Unit → App α}
    (h : ∀ commits, Answers drawn start M (k ()) ⟨some {}, o.seen, commits⟩) :
    Answers drawn start M (commit.bind k) o := by
  obtain ⟨work, seen, commits⟩ := o
  cases work with
  | some w => exact ⟨trivial, h _, trivial⟩
  | none => exact ⟨h _, trivial⟩

/-- The user of a uid, when nothing is written. -/
theorem answers_getUserById {seen : List Db} {commits : List (List Change)} {uid : String}
    {M : α → Own Db RowKey Change → Prop} {k : Option User → App α}
    (hnone : ∀ o, Answers drawn start M (k none) o)
    (hsome : ∀ user o, user.uid = uid → HasMet user o → user.googleSub = ownerOf drawn start uid →
      Answers drawn start M (k (some user)) o) :
    Answers drawn start M ((getUserById uid).bind k) ⟨some {}, seen, commits⟩ := by
  refine Warrants.read_usable rfl trivial fun d hd => ?_
  show Answers drawn start M (k (d.users.find? uid)) _
  cases hfound : d.users.find? uid with
  | none => exact hnone _
  | some user =>
      have huid : user.uid = uid := (Table.find?_eq_some.1 hfound).2
      refine hsome user _ huid ⟨d, List.mem_cons_self, ?_⟩ (hd.googleSub_eq hfound)
      rw [huid]
      exact hfound

theorem answers_refreshUser {seen : List Db} {commits : List (List Change)} (uid : String) :
    Answers drawn start (fun user o => HasMet user o ∧ user.googleSub = ownerOf drawn start uid)
      (refreshUser uid) ⟨some {}, seen, commits⟩ :=
  answers_getUserById (fun _ => trivial) fun _ _ _ hmet howner => ⟨hmet, howner⟩

/-- What `scalar_one_or_none` answers is a row. -/
theorem mem_of_scalarOneOrNone {β : Type} {rows : List β} {b : β}
    (h : scalarOneOrNone rows = .ok (some b)) : b ∈ rows := by
  cases rows with
  | nil => cases h
  | cons a rest =>
      cases rest with
      | nil =>
          cases h
          exact List.mem_cons_self
      | cons _ _ => cases h

/-- The user of a Google account, when nothing is written. -/
theorem answers_getUserByGoogleSub {seen : List Db} {commits : List (List Change)}
    {googleSub : String} {M : α → Own Db RowKey Change → Prop} {k : Option User → App α}
    (hnone : ∀ d, Answers drawn start M (k none) ⟨some {}, d :: seen, commits⟩)
    (hsome : ∀ user d, HasMet user ⟨some {}, d :: seen, commits⟩ → user.googleSub = googleSub →
      ownerOf drawn start user.uid = googleSub →
      Answers drawn start M (k (some user)) ⟨some {}, d :: seen, commits⟩) :
    Answers drawn start M ((getUserByGoogleSub googleSub).bind k) ⟨some {}, seen, commits⟩ := by
  unfold getUserByGoogleSub
  dsimp only [Prog.bind_eq_bind]
  rw [Prog.bind_assoc]
  refine Warrants.read_usable rfl trivial fun d hd => Warrants.ofExcept allows_returns ?_
  intro found hfound
  have hmem : ∀ user, found = some user → user ∈ d.users.select fun u =>
      u.googleSub == googleSub := by
    rintro user rfl
    exact mem_of_scalarOneOrNone hfound
  cases found with
  | none => exact hnone d
  | some user =>
      obtain ⟨hrow, hsub⟩ := Table.mem_select.1 (hmem user rfl)
      have hfind : d.users.find? user.uid = some user := Table.find?_eq_some.2 ⟨hrow, rfl⟩
      have hsub' : user.googleSub = googleSub := by simpa using hsub
      refine hsome user d ⟨d, List.mem_cons_self, hfind⟩ hsub' ?_
      rw [← hd.googleSub_eq hfind, hsub']

/-- What a program without savepoints has met, it has met at its end. -/
theorem warrants_of_uses {P : List Db → Prop} (hP : ∀ d seen, P seen → P (d :: seen)) {p : App α}
    (h : p.Uses (KeepsAccounts drawn)) (ho : P o.seen) :
    Warrants (AccountsKept drawn start) (fun _ _ _ => True) (fun _ o => P o.seen) p o := by
  refine Warrants.of_uses (P := fun o => P o.seen) (fun c o hc ho => ?_) h ho
  obtain ⟨work, seen, commits⟩ := o
  cases c with
  | sql st =>
      cases work with
      | some w => exact ⟨fun _ d _ _ _ => hP d seen ho, fun _ d _ _ _ => hP d seen ho, ho⟩
      | none => exact ⟨ho, ho⟩
  | commit =>
      cases work with
      | some w => exact ⟨trivial, ho, ho⟩
      | none => exact ⟨ho, ho⟩
  | rollback => exact ho
  | get key => exact fun _ => ho
  | set key v => exact ho
  | incr key => exact fun _ => ho
  | savepoint => exact hc.elim
  | release => exact hc.elim
  | rollbackTo => exact hc.elim

/-- A program without savepoints, and what follows it. -/
theorem answers_bind_of_uses {β : Type} {P : List Db → Prop} (hP : ∀ d seen, P seen → P (d :: seen))
    {M : α → Own Db RowKey Change → Prop} {p : App β} {k : β → App α}
    (h : p.Uses (KeepsAccounts drawn)) (ho : P o.seen)
    (hk : ∀ b o, P o.seen → Answers drawn start M (k b) o) :
    Answers drawn start M (p.bind k) o := by
  apply Warrants.seq (fun _ o => P o.seen)
  · refine (warrants_of_uses hP h ho).mono fun r o' h' => ?_
    cases r with
    | ok b => exact h'
    | error e => trivial
  · exact hk

/-- The user of a uid whose account is known, after a commit. -/
theorem answers_refreshOwner {seen : List Db} {commits : List (List Change)}
    {uid googleSub : String}
    (howner : ownerOf drawn start uid = googleSub) :
    Answers drawn start (fun user o => HasMet user o ∧ user.googleSub = googleSub)
      (refreshUser uid) ⟨some {}, seen, commits⟩ := by
  rw [← howner]
  exact answers_refreshUser uid

/-- The user of a first login is the one of the account, also when another request has made it. -/
theorem answers_firstLogin (be : Backend) {uid : String} (nicknames : ℕ → String)
    {info : GoogleInfo}
    (hnew : start.users.find? uid = none) (huid : drawn uid = info.sub) (ho : Unwritten o) :
    Answers drawn start (fun user o => HasMet user o ∧ user.googleSub = info.sub)
      (Auth.firstLogin be uid nicknames info) o := by
  have howner : ownerOf drawn start uid = info.sub := (ownerOf_of_new hnew).trans huid
  have hcreate : Answers drawn start (fun user o => HasMet user o ∧ user.googleSub = info.sub)
      (createUser be uid nicknames info) o := by
    apply warrants_readOnly_bind (readOnly_generateUniqueNickname _) ho
    intro nickname o' _
    refine Warrants.sql allows_returns fun w _ locked d _ eff _ => ?_
    exact answers_commit fun commits => answers_refreshOwner howner
  apply Warrants.tryCatch
  refine hcreate.mono fun r o' h' => ?_
  cases r with
  | ok user => exact h'
  | error e =>
      dsimp only
      split
      · -- the account was made by another request in the meantime
        show Answers drawn start (fun user o => HasMet user o ∧ user.googleSub = info.sub)
          ((getUserByGoogleSub info.sub).bind _) ⟨some {}, o'.seen, o'.commits⟩
        apply answers_getUserByGoogleSub
        · exact fun d => trivial
        · exact fun user d hmet hsub _ => ⟨hmet, hsub⟩
      · trivial

/-- A login answers the uid of a user who belongs to the account and may use the service. -/
theorem answers_googleLogin (be : Backend) (now : Timestamp) {uid : String} (nicknames : ℕ → String)
    {info : Option GoogleInfo} (hnew : info ≠ none → start.users.find? uid = none)
    (huid : ∀ i, info = some i → drawn uid = i.sub) (inviteUid : Option String) :
    Answers drawn start (fun userUid o => ∃ i user, info = some i ∧ user.googleSub = i.sub ∧
        user.uid = userUid ∧ user.isActive = true ∧ HasMet user o)
      (Auth.googleLogin be now uid nicknames info inviteUid) {} := by
  cases info with
  | none => trivial
  | some info =>
      have hsub : drawn uid = info.sub := huid info rfl
      have hnew' : start.users.find? uid = none := hnew (by simp)
      -- whoever signs in, what is left is the check and the invite
      have hrest : ∀ found : Option User, ∀ user o, HasMet user o ∧ user.googleSub = info.sub →
          Answers drawn start (fun userUid o => ∃ i user, some info = some i ∧
              user.googleSub = i.sub ∧ user.uid = userUid ∧ user.isActive = true ∧ HasMet user o)
            (if user.isActive then
                (Auth.consumeForNewUser now found.isNone inviteUid user).bind fun _ => .ret user.uid
              else .raise (.app .forbidden "Inactive user")) o := by
        rintro found user o ⟨hmet, hsub'⟩
        split
        · rename_i hactive
          refine answers_bind_of_uses (P := fun seen =>
            ∃ d ∈ seen, d.users.find? user.uid = some user)
            ?_ (uses_consumeForNewUser now _ inviteUid user) hmet ?_
          · rintro d seen ⟨d', hd', huser⟩
            exact ⟨d', List.mem_cons_of_mem _ hd', huser⟩
          · intro _ o' hmet'
            exact ⟨info, user, rfl, hsub', rfl, hactive, hmet'⟩
        · trivial
      apply answers_getUserByGoogleSub
      · intro d
        refine Warrants.seq _ ?_ (hrest none)
        refine (answers_firstLogin be nicknames hnew' hsub ?_).mono fun r o h => ?_
        · intro w hw
          cases hw
          rfl
        · cases r with
          | ok user => exact h
          | error e => trivial
      · intro user d _ _ howner
        refine Warrants.seq _ ?_ (hrest (some user))
        have hwrite : (updateUserProfile user info.name info.picture) =
            (whenever (info.name.any (fun n => user.name != some n) ||
                info.picture.any fun p => user.picture != some p)
              (flushUser user.uid (setProfile info.name info.picture))).bind fun _ =>
                commit.bind fun _ => refreshUser user.uid := rfl
        have hflush : (whenever (info.name.any (fun n => user.name != some n) ||
              info.picture.any fun p => user.picture != some p)
            (flushUser user.uid (setProfile info.name info.picture))).Uses
              (KeepsAccounts drawn) := by
          refine Admits.whenever (uses_flushUser user.uid fun u u' hu => ?_)
          cases hu
          rfl
        have hprofile : Answers drawn start
            (fun user o => HasMet user o ∧ user.googleSub = info.sub)
            (updateUserProfile user info.name info.picture)
            ⟨some {}, d :: ([] : List Db), []⟩ := by
          rw [hwrite]
          refine answers_bind_of_uses (P := fun _ => True) (fun _ _ _ => trivial) hflush trivial ?_
          intro _ o' _
          exact answers_commit fun commits => answers_refreshOwner howner
        refine hprofile.mono fun r o h => ?_
        cases r with
        | ok user => exact h
        | error e => trivial

/-- A renewal answers the user that the token names, who may use the service. -/
theorem answers_refresh {Token : Type} (jwt : Jwt Token) (now : Timestamp) (token : Token) :
    Answers drawn start (fun userUid o => ∃ payload user, jwt.decode now token = some payload ∧
        payload.type = "refresh" ∧ payload.sub = userUid ∧ user.uid = userUid ∧
        user.isActive = true ∧ HasMet user o)
      (Auth.refresh jwt now token) {} := by
  unfold Auth.refresh
  cases hdecode : jwt.decode now token with
  | none => trivial
  | some payload =>
      dsimp only
      split
      · rename_i htype
        apply answers_getUserById
        · exact fun o => trivial
        · intro user o huid hmet _
          dsimp only
          split
          · rename_i hactive
            exact ⟨payload, user, rfl, htype, huid.symm, rfl, hactive, hmet⟩
          · trivial
      · trivial

/-- The caller of a request has an access token, and may use the service. -/
theorem answers_me {Token : Type} (jwt : Jwt Token) (now : Timestamp) (bearer : Option Token) :
    Answers drawn start (fun user o => ∃ token payload, bearer = some token ∧
        jwt.decode now token = some payload ∧ payload.type = "access" ∧ payload.sub = user.uid ∧
        user.isActive = true ∧ HasMet user o ∧ user.googleSub = ownerOf drawn start user.uid)
      (Auth.me jwt now bearer) {} := by
  unfold Auth.me
  cases hbearer : bearerCredentials jwt now bearer with
  | access sub =>
      obtain ⟨token, payload, htoken, hdecode, htype, hsub⟩ := bearerCredentials_eq_access hbearer
      apply answers_getUserById
      · exact fun o => trivial
      · intro user o huid hmet howner
        dsimp only
        split
        · rename_i hactive
          rw [← huid] at howner
          exact ⟨token, payload, htoken, hdecode, htype, hsub.trans huid.symm,
            hactive, hmet, howner⟩
        · trivial
  | missing => trivial
  | invalid => trivial
  | otherType => trivial

/-- A staff login answers a user on the staff whose address the token has, if addresses of its
domain are let in. -/
theorem answers_adminGoogleLogin (be : Backend) (dbLower : String → String) (cfg : TokenSettings)
    (info : Option GoogleInfo) :
    Answers drawn start (fun user o => ∃ i, info = some i ∧ i.email ≠ "" ∧
        domainAllowed be cfg i.email = true ∧ dbLower user.email = be.lower i.email ∧
        user.isStaff = true ∧ user.isActive = true ∧ HasMet user o ∧
        user.googleSub = ownerOf drawn start user.uid)
      (AdminAuth.adminGoogleLogin be dbLower cfg info) {} := by
  unfold AdminAuth.adminGoogleLogin verifyStaffGoogleLogin
  cases info with
  | none => trivial
  | some info =>
      dsimp only
      split
      · trivial
      · rename_i hemail
        split
        · rename_i hdomain
          unfold getUserByEmail
          dsimp only [Prog.bind_eq_bind]
          rw [Prog.bind_assoc]
          refine Warrants.read_usable rfl trivial fun d hd => Warrants.ofExcept allows_returns ?_
          intro found hfound
          cases found with
          | none => trivial
          | some user =>
              obtain ⟨hrow, haddress⟩ := Table.mem_select.1 (mem_of_scalarOneOrNone hfound)
              have hfind : d.users.find? user.uid = some user := Table.find?_eq_some.2 ⟨hrow, rfl⟩
              dsimp only
              split
              · rename_i hstaff
                split
                · rename_i hactive
                  exact ⟨info, rfl, hemail, hdomain, by simpa using haddress, hstaff, hactive,
                    ⟨d, List.mem_cons_self, hfind⟩, hd.googleSub_eq hfind⟩
                · trivial
              · trivial
        · trivial

end Answers

end Vivac.Access
