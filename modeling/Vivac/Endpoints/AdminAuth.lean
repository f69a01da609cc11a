import Vivac.Core.Security

/-!
# Staff login and renewed tokens

`endpoints/admin_auth.py` with the staff login of `core/deps.py`, and what `endpoints/auth.py` does
with a token: `refresh` and `me`.
-/

set_option autoImplicit false

namespace Vivac

open Lib App

section StaffLogin

variable (be : Backend) (dbLower : String → String) (cfg : TokenSettings)

/-- `get_user_by_email`; `dbLower` is the `lower` of PostgreSQL. -/
def getUserByEmail (email : String) : App (Option User) := do
  let found ← select fun d => d.users.select fun u => dbLower u.email == be.lower email
  Prog.ofExcept (scalarOneOrNone found)

/-- `_, _, domain = email.partition("@")`. -/
def emailDomain (email : String) : String :=
  String.ofList ((email.toList.dropWhile fun c => c != '@').drop 1)

/-- The domain of the address is on the list, if there is a list. -/
def domainAllowed (email : String) : Bool :=
  match cfg.allowedEmailDomain with
  | none => true
  | some domain => domain = "" || be.lower (emailDomain email) = be.lower domain

/-- `verify_staff_google_login`; `info` is what the Google token says, if it is valid. -/
def verifyStaffGoogleLogin (info : Option GoogleInfo) : App User := do
  match info with
  | none => .raise (.app .unauthorized "Invalid Google ID token")
  | some info =>
    if info.email = "" then .raise (.app .unauthorized "Invalid Google ID token")
    else if domainAllowed be cfg info.email then do
      match ← getUserByEmail be dbLower info.email with
      | none => .raise (.app .forbidden "User not registered")
      | some user =>
        if user.isStaff then
          if user.isActive then return user else .raise (.app .forbidden "Inactive user")
        else .raise (.app .forbidden "Staff only")
    else .raise (.app .forbidden "Email domain not allowed")

end StaffLogin

namespace AdminAuth

/-- `admin_google_login`; answers the user the token is made for. -/
def adminGoogleLogin (be : Backend) (dbLower : String → String) (cfg : TokenSettings)
    (info : Option GoogleInfo) : App User :=
  verifyStaffGoogleLogin be dbLower cfg info

/-- The payload of the token of `admin_google_login`. -/
def adminTokenOf (cfg : TokenSettings) (now : Timestamp) (user : User) : Payload :=
  adminAccessClaims cfg now user.uid
    { email := user.email, isStaff := user.isStaff, staffRole := user.staffRole }

end AdminAuth

namespace Auth

variable {Token : Type} (jwt : Jwt Token) (now : Timestamp)

/-- `refresh`; answers the uid the tokens are made for. -/
def refresh (refreshToken : Token) : App String := do
  match jwt.decode now refreshToken with
  | none => .raise (.app .unauthorized "Invalid or expired refresh token")
  | some payload =>
    if payload.type = "refresh" then do
      match ← getUserById payload.sub with
      | none => .raise (.app .unauthorized "User not found")
      | some user =>
        if user.isActive then return user.uid else .raise (.app .forbidden "Inactive user")
    else .raise (.app .unauthorized "Invalid token type")

/-- `me`. -/
def me (bearer : Option Token) : App User := getCurrentUser (bearerCredentials jwt now bearer)

end Auth

end Vivac
