import Vivac.Crud.SpotImage
import Vivac.Crud.SpotReview
import Vivac.Endpoints.InternalSpots

/-!
# The images and reviews of a spot

The writing endpoints of `internal_spot_images.py` and `spot_reviews.py`. What the object storage
answers to the calls of one request is given with the request.
-/

set_option autoImplicit false

namespace Vivac

open Lib App

/-! ## Images -/

/-- What the storage answers: the size of the uploaded object, and whether copies and deletions
go through. -/
structure StorageAnswers where
  size : Option ℕ
  copied : Except Exc Unit := .ok ()
  deleted : Except Exc Unit := .ok ()

/-- `settings.IMAGE_MAX_COUNT_PER_SPOT` and `settings.IMAGE_MAX_BYTES`. -/
structure ImageLimits where
  maxCountPerSpot : ℕ := 20
  maxBytes : ℕ := 10 * 1024 * 1024

/-- `SpotImageRegisterRequest`. -/
structure SpotImageRegister where
  s3Key : String
  role : SpotImageRole := .detail
  sortOrder : ℤ := 0
  isPublic : Bool := true
  contentType : Option String := none

namespace SpotImages

/-- A character of `[0-9A-Za-z]`. -/
def isKeyChar (c : Char) : Bool :=
  ('0' ≤ c && c ≤ '9') || ('A' ≤ c && c ≤ 'Z') || ('a' ≤ c && c ≤ 'z')

/-- `_pending_key_re(spot_uid).fullmatch(s3_key).group(1)`. -/
def pendingKey (spotUid s3Key : String) : Option String :=
  let folder := ("uploads/pending/" ++ spotUid ++ "/").toList
  let key := s3Key.toList.drop folder.length
  if folder.isPrefixOf s3Key.toList && (key.take 22).length == 22 && (key.take 22).all isKeyChar &&
      [".jpg", ".png", ".webp"].contains (String.ofList (key.drop 22)) then
    some (String.ofList key)
  else none

section

variable (cfg : Settings) (now : Timestamp)

/-- The final place of an uploaded object, when the spot may have it as one more image. -/
def checkUpload (limits : ImageLimits) (storage : StorageAnswers) (uid s3Key : String) :
    App String := do
  let _ ← InternalSpots.findSpot cfg uid
  match pendingKey uid s3Key with
  | none => .raise (.app .validationError "s3_key does not belong to this spot")
  | some key => do
    let currentCount ← countImagesBySpot uid
    if limits.maxCountPerSpot ≤ currentCount then
      .raise (.app .spotImageCountLimitExceeded ("Spot already has the maximum of " ++
        toString limits.maxCountPerSpot ++ " images"))
    else
      match storage.size with
      | none => .raise (.app .validationError "Uploaded object not found in storage")
      | some size =>
        if limits.maxBytes < size then
          .raise (.app .spotImageTooLarge ("Image exceeds the " ++
            toString (limits.maxBytes / (1024 * 1024)) ++ "MB limit"))
        else return "spots/" ++ uid ++ "/" ++ key

/-- The limit of `presign_image_upload` and `register_image`. -/
def uploadLimit : LimitScope := ⟨"internal_image_upload", 30, 60⟩

/-- `register_image`; `imageUid` is the fresh uid of the row. The router asks for a staff user
before the limit of the route. A failed `INSERT` deletes the copy, which changes no table. -/
def registerImage (limits : ImageLimits) (storage : StorageAnswers) (peer : Peer)
    (credentials : Credentials) (uid imageUid : String) (payload : SpotImageRegister) :
    App SpotImage := do
  let _ ← requireStaff credentials
  checkRateLimit uploadLimit peer credentials
  let finalKey ← checkUpload cfg limits storage uid payload.s3Key
  Prog.ofExcept storage.copied
  let image ← createImage cfg now imageUid uid finalKey payload.role payload.sortOrder
    payload.isPublic payload.contentType
  Prog.ofExcept storage.deleted
  return image

/-- `_get_image_or_404`. -/
def findImage (spotUid imageUid : String) : App SpotImage := do
  match ← getImageByUid spotUid imageUid with
  | some image => return image
  | none => .raise (.app .spotImageNotFound "Spot image not found")

/-- `update_image`. -/
def updateImage (credentials : Credentials) (uid imageUid : String) (data : List ImageAttr) :
    App SpotImage := do
  let _ ← requireStaff credentials
  let image ← findImage uid imageUid
  Vivac.updateImage cfg now image data

/-- `delete_image`. -/
def deleteImage (credentials : Credentials) (uid imageUid : String) : App Unit := do
  let _ ← requireStaff credentials
  let image ← findImage uid imageUid
  Vivac.deleteImage cfg now image

end

end SpotImages

/-! ## Reviews -/

namespace SpotReviews

section

variable (cfg : Settings) (be : Backend) (now : Timestamp)

/-- `_get_spot_or_404`: a spot that the public may see. -/
def findPublicSpot (spotUid : String) : App Spot := do
  match ← getSpotByUid cfg spotUid true with
  | some spot => return spot
  | none => .raise spotNotFound

/-- `_get_active_review_or_404`. -/
def findActiveReview (spotUid reviewUid : String) : App SpotReview := do
  let spot ← findPublicSpot cfg spotUid
  match ← getReviewByUid reviewUid with
  | some review =>
    if review.spotUid == spot.uid && review.deletedAt.isNone then return review
    else .raise (.app .reviewNotFound "Review not found")
  | none => .raise (.app .reviewNotFound "Review not found")

/-- `_is_moderator`. -/
def isModerator (user : User) : Bool :=
  user.isStaff && StaffRole.manager.rank ≤ user.staffRole.rank

/-- The limit of `create_review`. -/
def createLimit : LimitScope := ⟨"review_create", 30, 3600⟩

/-- `create_review`; `reviewUid` is the fresh uid of the row. -/
def createReview (peer : Peer) (credentials : Credentials) (reviewUid spotUid : String)
    (rating : ℤ) (content : Option String) : App SpotReview :=
  withRateLimit createLimit peer credentials do
    let spot ← findPublicSpot cfg spotUid
    let user ← getCurrentUser credentials
    Vivac.createReview cfg be now reviewUid spot.uid user.uid rating content

/-- `update_review`. -/
def updateReview (credentials : Credentials) (spotUid reviewUid : String)
    (data : List ReviewAttr) : App SpotReview := do
  let review ← findActiveReview cfg spotUid reviewUid
  let user ← getCurrentUser credentials
  if review.userId != user.uid then .raise (.app .forbidden "본인 리뷰만 수정할 수 있습니다")
  else Vivac.updateReview cfg be now review data

/-- `delete_review`. -/
def deleteReview (credentials : Credentials) (spotUid reviewUid : String) : App Unit := do
  let review ← findActiveReview cfg spotUid reviewUid
  let user ← getCurrentUser credentials
  if review.userId != user.uid && !isModerator user then
    .raise (.app .forbidden "본인 리뷰만 삭제할 수 있습니다")
  else softDeleteReview cfg be now review

end

end SpotReviews

end Vivac
