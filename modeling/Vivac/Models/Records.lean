import Vivac.Models.Spot

/-!
# The other tables

Images, reviews and business info hang off a spot; groups have members, spots and
invites; messages belong to a conversation, which has participants; users may block each
other; jobs carry a bulk payload.
-/

set_option autoImplicit false

namespace Vivac

inductive SpotImageRole where
  | thumbnail
  | detail
  deriving DecidableEq

/-- A row of `spot_images`. -/
structure SpotImage where
  uid : String
  spotUid : String
  s3Key : String
  role : SpotImageRole := .detail
  sortOrder : ℤ := 0
  isPublic : Bool := true
  contentType : Option String := none
  deletedAt : Option Timestamp := none
  createdAt : Option Timestamp := none
  updatedAt : Option Timestamp := none

/-- One key of an image update; `none` is an explicit null, and every column is NOT NULL. -/
inductive ImageAttr where
  | role (v : Option SpotImageRole)
  | sortOrder (v : Option ℤ)
  | isPublic (v : Option Bool)

/-- A row of `spot_reviews`. -/
structure SpotReview where
  uid : String
  spotUid : String
  userId : String
  rating : ℤ
  content : Option String := none
  createdAt : Option Timestamp := none
  updatedAt : Option Timestamp := none
  deletedAt : Option Timestamp := none

/-- One key of a review update; `none` is an explicit null. -/
inductive ReviewAttr where
  | rating (v : Option ℤ)
  | content (v : Option String)

inductive GroupVisibility where
  | isPrivate
  | inviteOnly
  | isPublic
  deriving DecidableEq

/-- Roles in a group; each has the rights of those before it. -/
inductive GroupRole where
  | viewer
  | contributor
  | editor
  | owner
  deriving DecidableEq

/-- A row of `spot_groups`. -/
structure SpotGroup where
  uid : String
  name : String
  description : Option String := none
  visibility : GroupVisibility := .isPrivate
  createdAt : Option Timestamp := none
  updatedAt : Option Timestamp := none

/-- One key of a group update; `none` is an explicit null. -/
inductive GroupAttr where
  | name (v : Option String)
  | description (v : Option String)
  | visibility (v : Option GroupVisibility)

/-- A row of `spot_group_members`. -/
structure SpotGroupMember where
  groupUid : String
  userUid : String
  role : GroupRole
  invitedByUid : Option String := none
  createdAt : Option Timestamp := none

/-- A row of `spot_group_spots`. -/
structure SpotGroupSpot where
  groupUid : String
  spotUid : String
  addedByUid : String
  createdAt : Option Timestamp := none

/-- A row of `messages`. -/
structure Message where
  uid : String
  conversationUid : String
  senderUid : String
  content : String
  deletedAt : Option Timestamp := none
  createdAt : Timestamp

/-- A row of `spot_business_info`. -/
structure SpotBusinessInfo where
  uid : String
  spotUid : String
  businessRegNo : Option String := none
  tourismBusinessRegNo : Option String := none
  businessType : Option String := none
  operationType : Option String := none
  operatingAgency : Option String := none
  operatingStatus : Option String := none
  nationalParkNo : Option ℤ := none
  nationalParkOfficeCode : Option String := none
  nationalParkSerialNo : Option String := none
  nationalParkCategoryCode : Option String := none
  licensedAt : Option ℤ := none
  createdAt : Option Timestamp := none
  updatedAt : Option Timestamp := none
  deriving DecidableEq

/-- One key of a business info row with a value that is not null. -/
inductive InfoAttr where
  | businessRegNo (v : String)
  | tourismBusinessRegNo (v : String)
  | businessType (v : String)
  | operationType (v : String)
  | operatingAgency (v : String)
  | operatingStatus (v : String)
  | nationalParkNo (v : ℤ)
  | nationalParkOfficeCode (v : String)
  | nationalParkSerialNo (v : String)
  | nationalParkCategoryCode (v : String)
  | licensedAt (v : ℤ)

/-- `setattr(existing, key, value)`. -/
def InfoAttr.set (a : InfoAttr) (r : SpotBusinessInfo) : SpotBusinessInfo :=
  match a with
  | .businessRegNo v => { r with businessRegNo := some v }
  | .tourismBusinessRegNo v => { r with tourismBusinessRegNo := some v }
  | .businessType v => { r with businessType := some v }
  | .operationType v => { r with operationType := some v }
  | .operatingAgency v => { r with operatingAgency := some v }
  | .operatingStatus v => { r with operatingStatus := some v }
  | .nationalParkNo v => { r with nationalParkNo := some v }
  | .nationalParkOfficeCode v => { r with nationalParkOfficeCode := some v }
  | .nationalParkSerialNo v => { r with nationalParkSerialNo := some v }
  | .nationalParkCategoryCode v => { r with nationalParkCategoryCode := some v }
  | .licensedAt v => { r with licensedAt := some v }

/-- `for key, value in fields.items(): setattr(existing, key, value)`. -/
def InfoAttr.setAll (as : List InfoAttr) (r : SpotBusinessInfo) : SpotBusinessInfo :=
  as.foldl (fun r a => a.set r) r

theorem InfoAttr.uid_setAll (as : List InfoAttr) (r : SpotBusinessInfo) :
    (InfoAttr.setAll as r).uid = r.uid := by
  induction as generalizing r with
  | nil => rfl
  | cons a as ih =>
    have hset : (a.set r).uid = r.uid := by cases a <;> rfl
    rw [← hset]
    exact ih _

inductive JobStatus where
  | pending
  | running
  | succeeded
  | failed
  deriving DecidableEq

/-- A row of a spots bulk payload: the required title, the upsert key, the rating
columns, and the other editable fields the row supplies. -/
structure SpotBulkRow where
  title : String
  source : Option String := none
  externalId : Option String := none
  ratingAvg : ℚ := 0
  reviewCount : ℤ := 0
  fields : List SpotAttr := []
  editable : fields.all SpotAttr.isBulkField = true := by rfl

structure SpotBulkRequest where
  dryRun : Bool := false
  rows : List SpotBulkRow

/-- A row of a business info bulk payload. -/
structure SpotBusinessInfoBulkRow where
  spotExternalId : String
  fields : List InfoAttr := []

structure SpotBusinessInfoBulkRequest where
  dryRun : Bool := false
  rows : List SpotBusinessInfoBulkRow

/-- The validated payload of a job, by the job's type. -/
inductive JobPayload where
  | spots (request : SpotBulkRequest)
  | businessInfo (request : SpotBusinessInfoBulkRequest)
  | dbDump

/-- `{"index": i, "reason": r}`. -/
structure RowError where
  index : ℕ
  reason : String
  deriving DecidableEq

/-- What a bulk handler returns. -/
structure BulkResult where
  succeeded : ℕ
  failed : ℕ
  dryRun : Bool
  errors : List RowError
  deriving DecidableEq

/-- What `job.result` holds: the answer of a bulk handler, or where a dump is, and its size. -/
inductive JobResult where
  | bulk (result : BulkResult)
  | dump (s3Key : String) (sizeBytes : ℕ)
  deriving DecidableEq

/-- The answer of a bulk handler. -/
def JobResult.answer? : JobResult → Option BulkResult
  | .bulk result => some result
  | .dump _ _ => none

theorem JobResult.answer?_eq_some {r : JobResult} {result : BulkResult} :
    r.answer? = some result ↔ r = .bulk result := by
  cases r <;> simp [JobResult.answer?]

/-- A row of `jobs`. -/
structure Job where
  uid : String
  status : JobStatus := .pending
  payload : JobPayload
  result : Option JobResult := none
  error : Option String := none
  createdBy : String
  createdAt : Timestamp := 0
  startedAt : Option Timestamp := none
  finishedAt : Option Timestamp := none

inductive StaffRole where
  | staff
  | manager
  | superuser
  deriving DecidableEq

/-- A row of `users`, as far as the modelled endpoints read it. -/
structure User where
  uid : String
  email : String
  googleSub : String
  nickname : String
  name : Option String := none
  picture : Option String := none
  isActive : Bool := true
  isStaff : Bool := false
  staffRole : StaffRole := .staff
  referredByUid : Option String := none

inductive InviteStatus where
  | pending
  | accepted
  | revoked
  deriving DecidableEq

/-- A row of `invites`: an invite into a group, or a referral when there is no group. -/
structure Invite where
  uid : String
  inviterUid : String
  groupUid : Option String := none
  groupRole : Option GroupRole := none
  status : InviteStatus := .pending
  acceptedByUid : Option String := none
  acceptedAt : Option Timestamp := none
  createdAt : Option Timestamp := none

inductive ConversationType where
  | direct
  | group
  deriving DecidableEq

/-- A row of `conversations`. -/
structure Conversation where
  uid : String
  type : ConversationType
  name : Option String := none
  createdAt : Timestamp
  updatedAt : Timestamp

/-- A row of `conversation_participants`. -/
structure ConversationParticipant where
  conversationUid : String
  userUid : String
  joinedAt : Timestamp
  lastReadAt : Option Timestamp := none
  leftAt : Option Timestamp := none

/-- A row of `user_blocks`. -/
structure UserBlock where
  blockerUid : String
  blockedUid : String
  createdAt : Timestamp

/-- The array columns of `spots` whose values are managed. -/
inductive SpotOptionField where
  | category
  | amenities
  | nearbyFacilities
  | hasEquipmentRental
  deriving DecidableEq

/-- A row of `spot_field_options`: a value that an array column may hold. -/
structure SpotFieldOption where
  field : SpotOptionField
  code : String
  labelKo : String

end Vivac
