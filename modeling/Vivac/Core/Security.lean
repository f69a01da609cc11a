import Vivac.Endpoints.Auth

/-!
# Tokens

`core/security.py`: what the tokens claim and for how long, and what `core/deps.py` makes of a
bearer token. Tokens are signed and not stored, so a token that is read back says what it was made
with.
-/

set_option autoImplicit false

namespace Vivac

/-- The settings of the tokens and of the staff login. -/
structure TokenSettings where
  jwtAccessTokenExpireMinutes : ℕ := 30
  jwtRefreshTokenExpireDays : ℕ := 7
  jwtAdminAccessTokenExpireHours : ℕ := 8
  allowedEmailDomain : Option String := none

/-- What the console reads off its token. -/
structure AdminClaims where
  email : String
  isStaff : Bool
  staffRole : StaffRole
  deriving DecidableEq

/-- The payload of a token. -/
structure Payload where
  sub : String
  type : String
  admin : Option AdminClaims := none
  iat : Timestamp
  exp : Timestamp
  deriving DecidableEq

def minutesMicros (minutes : ℤ) : ℤ := minutes * 60000000

def hoursMicros (hours : ℤ) : ℤ := hours * 3600000000

/-- A time in a payload is in whole seconds. -/
def numericDate (t : Timestamp) : Timestamp := t / 1000000 * 1000000

theorem numericDate_le (t : Timestamp) : numericDate t ≤ t := Int.ediv_mul_le t (by decide)

namespace Payload

/-- The payload as it is written. -/
def written (c : Payload) : Payload := { c with iat := numericDate c.iat, exp := numericDate c.exp }

/-- The token is neither used before it was made, nor after it has expired. -/
def ValidAt (c : Payload) (now : Timestamp) : Prop := c.written.iat ≤ now ∧ now < c.written.exp

instance (c : Payload) (now : Timestamp) : Decidable (c.ValidAt now) :=
  inferInstanceAs (Decidable (_ ∧ _))

end Payload

/-- The signing of payloads with the secret key, and the reading of a token at some time; `none` is
`InvalidTokenError`. -/
structure Jwt (Token : Type) where
  encode : Payload → Token
  decode : Timestamp → Token → Option Payload

/-- A token that was made here is read until it expires. -/
structure Jwt.Faithful {Token : Type} (jwt : Jwt Token) : Prop where
  decode_encode : ∀ now c, jwt.decode now (jwt.encode c) =
    if c.ValidAt now then some c.written else none

section Payloads

variable (cfg : TokenSettings) (now : Timestamp)

/-- The payload of `create_access_token`. -/
def accessClaims (userId : String) : Payload where
  sub := userId
  type := "access"
  iat := now
  exp := now + minutesMicros cfg.jwtAccessTokenExpireMinutes

/-- The payload of `create_admin_access_token`. -/
def adminAccessClaims (userId : String) (admin : AdminClaims) : Payload where
  sub := userId
  type := "access"
  admin := some admin
  iat := now
  exp := now + hoursMicros cfg.jwtAdminAccessTokenExpireHours

/-- The payload of `create_refresh_token`. -/
def refreshClaims (userId : String) : Payload where
  sub := userId
  type := "refresh"
  iat := now
  exp := now + daysMicros cfg.jwtRefreshTokenExpireDays

/-- How long the longest token is valid. -/
def longestLifetime : ℤ :=
  max (minutesMicros cfg.jwtAccessTokenExpireMinutes)
    (max (hoursMicros cfg.jwtAdminAccessTokenExpireHours)
      (daysMicros cfg.jwtRefreshTokenExpireDays))

theorem accessClaims_exp_le (userId : String) :
    (accessClaims cfg now userId).exp ≤ now + longestLifetime cfg :=
  Int.add_le_add_left (le_max_left ..) now

theorem adminAccessClaims_exp_le (userId : String) (admin : AdminClaims) :
    (adminAccessClaims cfg now userId admin).exp ≤ now + longestLifetime cfg :=
  Int.add_le_add_left ((le_max_left ..).trans (le_max_right ..)) now

theorem refreshClaims_exp_le (userId : String) :
    (refreshClaims cfg now userId).exp ≤ now + longestLifetime cfg :=
  Int.add_le_add_left ((le_max_right ..).trans (le_max_right ..)) now

end Payloads

/-- A token is used before the time it was given. -/
theorem Payload.ValidAt.lt_exp {c : Payload} {now : Timestamp} (h : c.ValidAt now) : now < c.exp :=
  h.2.trans_le (numericDate_le c.exp)

section Reading

variable {Token : Type} (jwt : Jwt Token) (now : Timestamp)

/-- What `get_current_user` learns from the bearer token. -/
def bearerCredentials : Option Token → Credentials
  | none => .missing
  | some token =>
    match jwt.decode now token with
    | none => .invalid
    | some payload => if payload.type = "access" then .access payload.sub else .otherType

variable {jwt now}

/-- A bearer that names a user has an access token of the user. -/
theorem bearerCredentials_eq_access {bearer : Option Token} {sub : String}
    (h : bearerCredentials jwt now bearer = .access sub) :
    ∃ token payload, bearer = some token ∧ jwt.decode now token = some payload ∧
      payload.type = "access" ∧ payload.sub = sub := by
  cases bearer with
  | none => cases h
  | some token =>
      unfold bearerCredentials at h
      dsimp only at h
      split at h
      · cases h
      · rename_i payload hdecode
        split at h
        · rename_i htype
          cases h
          exact ⟨token, payload, rfl, hdecode, htype, rfl⟩
        · cases h

/-- A token that was made here and can be read says what it was made with. -/
theorem Jwt.Faithful.decode_eq_some (hjwt : jwt.Faithful) {c payload : Payload}
    (h : jwt.decode now (jwt.encode c) = some payload) : c.ValidAt now ∧ payload = c.written := by
  rw [hjwt.decode_encode] at h
  split at h
  · rename_i hvalid
    cases h
    exact ⟨hvalid, rfl⟩
  · cases h

end Reading

end Vivac
