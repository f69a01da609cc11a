import Vivac.Core.Limits
import Vivac.Crud.Invite

/-!
# Callers

`core/deps.py`, which finds the caller of a request and checks its staff role, the dependency
`rate_limit` of a route, and the login of `endpoints/auth.py`, which consumes the invite of a new
user.
-/

set_option autoImplicit false

namespace Vivac

open Lib App

/-- The bearer token of a request, decoded. -/
inductive Credentials where
  | missing
  | invalid
  | otherType
  | access (sub : String)

def StaffRole.rank : StaffRole → ℕ
  | .staff => 1
  | .manager => 2
  | .superuser => 3

def StaffRole.value : StaffRole → String
  | .staff => "staff"
  | .manager => "manager"
  | .superuser => "superuser"

/-- The text of a refusal for want of a role. -/
def roleRequired (role : String) : Exc := .app .forbidden (role ++ " 이상 권한이 필요합니다")

def getCurrentUser : Credentials → App User
  | .missing => .raise (.app .unauthorized "Missing authentication credentials")
  | .invalid => .raise (.app .unauthorized "Invalid or expired token")
  | .otherType => .raise (.app .unauthorized "Invalid token type")
  | .access sub => do
    match ← getUserById sub with
    | none => .raise (.app .unauthorized "User not found")
    | some user => if user.isActive then return user else .raise (.app .forbidden "Inactive user")

/-- `get_current_user_optional`: credentials that are given must be good. -/
def getCurrentUserOptional : Credentials → App (Option User)
  | .missing => return none
  | credentials => do
    let user ← getCurrentUser credentials
    return some user

def requireStaff (credentials : Credentials) : App User := do
  let user ← getCurrentUser credentials
  if user.isStaff then return user else .raise (.app .forbidden "Staff only")

/-- `require_role`, on the staff user that `require_staff` has found. -/
def requireRole (minRole : StaffRole) (staff : User) : App Unit :=
  whenever (staff.staffRole.rank < minRole.rank) (.raise (roleRequired minRole.value))

/-! ## Limited routes -/

/-- Where a request comes from, and what the counters tell of its actor; they tell nothing where
Redis fails. -/
structure Peer where
  client : Option String := none
  counted : LimitScope → LimitActor → Option ℕ := fun _ _ => none

/-- The number of a request of the user, or of the client where nobody is logged in. -/
def Peer.count (peer : Peer) (scope : LimitScope) (user : Option User) : Option ℕ :=
  (LimitedRequest.actor ⟨scope, user, peer.client⟩).bind (peer.counted scope)

/-- The request is beyond the limit. -/
def Peer.exceeds (peer : Peer) (scope : LimitScope) (user : Option User) : Bool :=
  (peer.count scope user).any fun n => scope.times < n

/-- The dependency `rate_limit(scope, times, seconds)` in the session of its request: the caller
is looked up, where there are credentials, and counted. -/
def checkRateLimit (scope : LimitScope) (peer : Peer) (credentials : Credentials) : App Unit := do
  let user ← getCurrentUserOptional credentials
  decideLimit scope (peer.count scope user)

/-- `dependencies=[Depends(rate_limit(..))]` of a route: it comes before the dependencies of the
endpoint itself. -/
def withRateLimit {α : Type} (scope : LimitScope) (peer : Peer) (credentials : Credentials)
    (endpoint : App α) : App α := do
  checkRateLimit scope peer credentials
  endpoint

namespace Auth

section

variable (be : Backend) (now : Timestamp)

/-- The user of a Google account at its first login: another request may have created it in the
meantime. -/
def firstLogin (uid : String) (nicknames : ℕ → String) (info : GoogleInfo) : App User :=
  (createUser be uid nicknames info).tryCatch fun e =>
    if e.className = "IntegrityError" then do
      .perform .rollback
      match ← getUserByGoogleSub info.sub with
      | some user => return user
      | none => .raise e
    else .raise e

/-- The user of the account: created at its first login, else with its profile of today. -/
def signIn (uid : String) (nicknames : ℕ → String) (info : GoogleInfo) : Option User → App User
  | none => firstLogin be uid nicknames info
  | some user => updateUserProfile user info.name info.picture

/-- `if is_new_user and body.invite_uid: consume_invite_for_signup`. -/
def consumeForNewUser (isNewUser : Bool) (inviteUid : Option String) (user : User) : App Unit :=
  match inviteUid with
  | some inviteUid =>
    whenever (isNewUser && inviteUid != "") (consumeInviteForSignup now inviteUid user)
  | none => .ret ()

/-- `google_login`; answers the uid the tokens are made for. `info` is what the Google token
says, if it is valid; `uid` and `nicknames` are drawn for a new user. -/
def googleLogin (uid : String) (nicknames : ℕ → String) (info : Option GoogleInfo)
    (inviteUid : Option String) : App String := do
  match info with
  | none => .raise (.app .unauthorized "Invalid Google ID token")
  | some info => do
    let found ← getUserByGoogleSub info.sub
    let user ← signIn be uid nicknames info found
    if user.isActive then do
      consumeForNewUser now found.isNone inviteUid user
      return user.uid
    else .raise (.app .forbidden "Inactive user")

end

end Auth

end Vivac
