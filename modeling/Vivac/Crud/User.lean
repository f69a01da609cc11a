import Vivac.Crud.Spot

/-!
# Users

`crud/user.py`: looking users up, and the two writers of a login.
-/

set_option autoImplicit false

namespace Vivac

open Lib App

/-- What the claims of a verified Google token say. -/
structure GoogleInfo where
  sub : String
  email : String
  name : Option String := none
  picture : Option String := none

/-! ## Statements -/

/-- `INSERT INTO users`: the uid, the address, Google's subject and the nickname are unique. -/
def insertUserRow (u : User) : Statement Unit :=
  fun _ d =>
    if (d.users.find? u.uid).isSome ||
        d.users.any (fun v => v.email == u.email || v.googleSub == u.googleSub ||
          v.nickname == u.nickname) then
      .error (integrityError "duplicate key value violates unique constraint")
    else .ok ⟨(), fun d => { d with users := d.users.insert u },
      [.user u.uid, .userEmail u.email, .userGoogleSub u.googleSub, .userNickname u.nickname],
      [.user u.uid]⟩

/-- Replace the user `uid` by its new version. -/
def rewriteUser (uid : String) (f : Rewrite User.uid) (d : Db) : Db :=
  { d with users := d.users.rewrite (fun u => u.uid == uid) f }

/-- `UPDATE users SET .. WHERE uid = ..`; answers whether a row matched. -/
def updateUserRow (uid : String) (f : Rewrite User.uid) : Statement Bool :=
  fun _ d =>
    if (d.users.find? uid).isSome then .ok ⟨true, rewriteUser uid f, [.user uid], [.user uid]⟩
    else .ok ⟨false, id, [], []⟩

/-- The flush of a loaded user. -/
def flushUser (uid : String) (f : Rewrite User.uid) : App Unit := do
  let found ← execute (updateUserRow uid f)
  if found then .ret () else .raise staleDataError

/-! ## Operations -/

section Operations

variable (be : Backend)

def getUserById (userId : String) : App (Option User) := select fun d => d.users.find? userId

def getUserByGoogleSub (googleSub : String) : App (Option User) := do
  let found ← select fun d => d.users.select fun u => u.googleSub == googleSub
  Prog.ofExcept (scalarOneOrNone found)

/-- `session.refresh(user)`. -/
def refreshUser (uid : String) : App User := do
  match ← getUserById uid with
  | some u => return u
  | none => .raise (.database "InvalidRequestError" "Could not refresh instance")

def nicknameGenerationAttempts : ℕ := 10

/-- `_generate_unique_nickname`, on the candidates that `generate_nickname` draws. -/
def generateUniqueNickname : List String → App String
  | [] => .raise (.runtime "Failed to generate unique nickname after 10 attempts")
  | candidate :: candidates => do
    let found ← select fun d => d.users.select fun u => u.nickname == candidate
    match ← Prog.ofExcept (scalarOneOrNone found) with
    | none => return candidate
    | some _ => generateUniqueNickname candidates

/-- A new user under the fresh `uid`; `nicknames` are the candidates drawn for it. -/
def createUser (uid : String) (nicknames : ℕ → String) (info : GoogleInfo) : App User := do
  let nickname ← generateUniqueNickname
    ((List.range nicknameGenerationAttempts).map nicknames)
  execute (insertUserRow
    { uid := uid, email := be.lower info.email, googleSub := info.sub, nickname := nickname,
      name := info.name, picture := info.picture })
  commit
  refreshUser uid

/-- A name and a picture, where they are given. -/
def setProfile (name picture : Option String) : Rewrite User.uid :=
  .total (fun u => { u with name := name.orElse fun _ => u.name
                            picture := picture.orElse fun _ => u.picture }) fun _ => rfl

/-- Set the name and the picture of a loaded user, where they are given. -/
def updateUserProfile (user : User) (name picture : Option String) : App User := do
  let changes := name.any (fun n => user.name != some n) ||
    picture.any fun p => user.picture != some p
  whenever changes (flushUser user.uid (setProfile name picture))
  commit
  refreshUser user.uid

/-- `user.referred_by_uid = inviter_uid`. -/
def setReferredBy (inviterUid : String) : Rewrite User.uid :=
  .total (fun u => { u with referredByUid := some inviterUid }) fun _ => rfl

end Operations

end Vivac
