import Vivac.Endpoints.Explore
import Vivac.Endpoints.SpotContent

/-!
# The images and reviews that the public sees

`list_spot_images` of `explore.py` and `list_reviews` of `spot_reviews.py`. Both look for a spot
that the public may see first, and neither goes through the cache. Rows that tie in the order of a
list come as the database likes.
-/

set_option autoImplicit false

namespace Vivac

open Lib App

namespace Explore

variable (cfg : Settings) (be : Backend)

/-- `SpotImageOut` of a row. -/
def toImageOut (image : SpotImage) : SpotImageOut where
  uid := image.uid
  role := image.role
  sortOrder := image.sortOrder
  isPublic := image.isPublic
  url := be.resolveUrl image.s3Key image.isPublic

/-- `GET /spots/{uid}/images`. -/
def listSpotImages (found : imageOrder.Arrangement) (uid : String) : App (List SpotImageOut) := do
  match ← getSpotByUid cfg uid true with
  | none => .raise spotNotFound
  | some _ => do
    let images ← listImagesBySpot uid found
    return images.map (toImageOut be)

end Explore

/-- `ORDER BY created_at DESC`. -/
def latestReviewFirst : RowOrder (SpotReview × String) :=
  ((RowOrder.ofLinear Timestamp).nullsLast.on fun row => row.1.createdAt).reverse

/-- The reviews of a spot with the nicknames of their authors, and how many reviews it has. -/
def listReviewsBySpot (found : latestReviewFirst.Arrangement) (spotUid : String)
    (offset limit : ℕ) : App (List (SpotReview × String) × ℕ) := do
  let total ← select fun d => (activeReviews spotUid d).length
  let rows ← select fun d =>
    ((found.run ((activeReviews spotUid d).filterMap fun review =>
      (d.users.find? review.userId).map fun user =>
        (review, user.nickname))).drop offset).take limit
  return (rows, total)

structure SpotReviewOut where
  uid : String
  spotUid : String
  userUid : String
  nickname : String
  rating : ℤ
  content : Option String
  createdAt : Option Timestamp
  updatedAt : Option Timestamp

namespace SpotReviews

variable (cfg : Settings)

/-- `_to_out`. -/
def toOut (review : SpotReview) (nickname : String) : SpotReviewOut where
  uid := review.uid
  spotUid := review.spotUid
  userUid := review.userId
  nickname := nickname
  rating := review.rating
  content := review.content
  createdAt := review.createdAt
  updatedAt := review.updatedAt

/-- `list_reviews`. -/
def listReviews (found : latestReviewFirst.Arrangement) (spotUid : String) (offset limit : ℕ) :
    App (List SpotReviewOut) := do
  let spot ← findPublicSpot cfg spotUid
  let (rows, _) ← listReviewsBySpot found spot.uid offset limit
  return rows.map fun row => toOut row.1 row.2

end SpotReviews

end Vivac
