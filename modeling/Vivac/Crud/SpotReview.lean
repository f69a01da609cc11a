import Vivac.Crud.Spot

/-!
# Reviews

`crud/spot_review.py`. A writer changes the review row, aggregates the reviews its
session sees, and writes the aggregates into the spot.
-/

set_option autoImplicit false

namespace Vivac

open Lib App

namespace SpotReview

/-- Not deleted, and of the given spot. -/
def activeOf (spotUid : String) (r : SpotReview) : Bool :=
  r.spotUid == spotUid && r.deletedAt.isNone

/-- `check_review_rating_range`. -/
def checkRating (r : SpotReview) : Bool := decide (0 ≤ r.rating ∧ r.rating ≤ 10)

end SpotReview

namespace ReviewAttr

/-- `setattr(review, key, value)`; a null rating has no row to write. -/
def set (a : ReviewAttr) (r : SpotReview) : Option SpotReview :=
  match a with
  | .rating v => v.map fun v => { r with rating := v }
  | .content v => some { r with content := v }

/-- The loaded review already has the value. -/
def unchanged (a : ReviewAttr) (r : SpotReview) : Bool :=
  match a with
  | .rating v => v == some r.rating
  | .content v => v == r.content

/-- The value is no text that the database cannot store. -/
def storable : ReviewAttr → Bool
  | .rating _ => true
  | .content v => v.all isStorable

def isRating : ReviewAttr → Bool
  | .rating _ => true
  | .content _ => false

/-- The pairs of an update dictionary, in order. -/
def setAll : List ReviewAttr → SpotReview → Option SpotReview
  | [], r => some r
  | a :: as, r => (a.set r).bind (setAll as)

/-- An update of rating and content leaves the review's identity alone. -/
theorem keeps_of_setAll {as : List ReviewAttr} {r r' : SpotReview} (h : setAll as r = some r') :
    r'.uid = r.uid ∧ r'.spotUid = r.spotUid ∧ r'.deletedAt = r.deletedAt := by
  induction as generalizing r with
  | nil =>
    cases h
    exact ⟨rfl, rfl, rfl⟩
  | cons a as ih =>
    obtain ⟨t, ht, hr'⟩ := Option.bind_eq_some_iff.1 h
    obtain ⟨h₁, h₂, h₃⟩ := ih hr'
    cases a with
    | rating v =>
      obtain ⟨w, -, rfl⟩ := Option.map_eq_some_iff.1 ht
      exact ⟨h₁, h₂, h₃⟩
    | content v =>
      cases ht
      exact ⟨h₁, h₂, h₃⟩

end ReviewAttr

section Statements

/-- The reviews the aggregates are made of. -/
def activeReviews (spotUid : String) (d : Db) : List SpotReview :=
  d.reviews.select (SpotReview.activeOf spotUid)

/-- `select(func.avg(rating), func.count())`; the average of no rows is null. -/
def aggregateReviews (spotUid : String) (d : Db) : Option ℚ × ℕ :=
  let rs := activeReviews spotUid d
  (if rs.isEmpty then none else some ((rs.map fun r => (r.rating : ℚ)).sum / rs.length), rs.length)

/-- Replace the review `uid` by its new version. -/
def rewriteReview (uid : String) (f : Rewrite SpotReview.uid) (d : Db) : Db :=
  { d with reviews := d.reviews.rewrite (fun r => r.uid == uid) f }

/-- `UPDATE spot_reviews SET .. WHERE uid = ..`; answers whether a row matched. -/
def updateReviewRow (uid : String) (f : Rewrite SpotReview.uid) : Statement Bool :=
  fun _ d =>
    match d.reviews.find? uid with
    | none => .ok ⟨false, id, [], []⟩
    | some r =>
      match f.apply r with
      | none => .error (integrityError "null value violates not-null constraint")
      | some r' =>
        if r'.checkRating then
          .ok ⟨true, rewriteReview uid f, [.review uid], [.review uid]⟩
        else .error (integrityError "check_review_rating_range")

/-- Append a review. -/
def insertReview (r : SpotReview) (d : Db) : Db := { d with reviews := d.reviews.insert r }

/-- `INSERT INTO spot_reviews`. An active review of the same spot and user refuses it, or
makes it wait when another session holds that review. -/
def insertReviewRow (r : SpotReview) : Statement Unit :=
  fun locked d =>
    if !r.content.all isStorable then .error textNotStorable
    else if (d.reviews.find? r.uid).isSome then .error (integrityError "spot_reviews_pkey")
    else if (d.spots.find? r.spotUid).isNone || (d.users.find? r.userId).isNone then
      .error (integrityError "foreign key constraint")
    else if !r.checkRating then .error (integrityError "check_review_rating_range")
    else
      match d.reviews.rows.find? fun r' => r'.activeOf r.spotUid && r'.userId == r.userId with
      | some r' =>
        if locked (.review r'.uid) then .ok ⟨(), id, [.review r'.uid], []⟩
        else .error (integrityError "uq_spot_user_review_active")
      | none =>
        .ok ⟨(), insertReview r, [.review r.uid, .activeReview r.spotUid r.userId], [.review r.uid]⟩

/-- What the table demands of a new review. -/
structure Insertable (r : SpotReview) (d : Db) : Prop where
  storable : r.content.all isStorable = true
  fresh : d.reviews.find? r.uid = none
  inScale : r.checkRating = true
  first : ∀ r' ∈ d.reviews.rows, r'.activeOf r.spotUid = true → r'.userId ≠ r.userId

/-- An insert that is not refused waits for a review that another session holds, or has inserted
its row. -/
theorem insertReviewRow_eq_ok {r : SpotReview} {locked : RowKey → Bool} {d : Db}
    {eff : Effect Db RowKey Change Unit} (h : insertReviewRow r locked d = .ok eff) :
    (∃ uid, locked (.review uid) = true ∧ eff = ⟨(), id, [.review uid], []⟩) ∨
      Insertable r d ∧ eff = ⟨(), insertReview r,
        [.review r.uid, .activeReview r.spotUid r.userId], [.review r.uid]⟩ := by
  simp only [insertReviewRow] at h
  split at h
  · cases h
  rename_i hstorable
  split at h
  · cases h
  rename_i hfresh
  split at h
  · cases h
  split at h
  · cases h
  rename_i hscale
  split at h
  · split at h
    · rename_i held _ hlocked
      cases h
      exact .inl ⟨held.uid, hlocked, rfl⟩
    · cases h
  · rename_i hfirst
    cases h
    refine .inr ⟨⟨by simpa using hstorable, by simpa using hfresh, by simpa using hscale, ?_⟩, rfl⟩
    intro r' hr' hactive huser
    have hnot := List.find?_eq_none.1 hfirst r' hr'
    simp [hactive, huser] at hnot

end Statements

section Writers

variable (cfg : Settings) (be : Backend) (now : Timestamp)

/-- `UPDATE spots SET rating_avg = .., review_count = .. WHERE uid = ..`. -/
def setAggregates (spotUid : String) (avg : ℚ) (count : ℕ) : Statement (List String) :=
  updateSpots be (fun s => s.uid == spotUid)
    (.total (fun s =>
      { s with ratingAvg := avg, reviewCount := count, updatedAt := some now }) fun _ => rfl)
    ["rating_avg", "review_count"]

/-- Recompute the aggregates of a spot from its reviews that are not deleted. -/
def recalculateSpotRating (spotUid : String) : App Unit := do
  let (avgRating, count) ← select (aggregateReviews spotUid)
  let _ ← execute (setAggregates be now spotUid (avgRating.getD 0) count)

def getActiveReview (spotUid userUid : String) : App (Option SpotReview) :=
  select fun d => d.reviews.rows.find? fun r => r.activeOf spotUid && r.userId == userUid

def getReviewByUid (uid : String) : App (Option SpotReview) :=
  select fun d => d.reviews.find? uid

/-- `session.refresh(review)`. -/
def refreshReview (uid : String) : App SpotReview := do
  match ← select fun d => d.reviews.find? uid with
  | some r => return r
  | none => .raise (.database "InvalidRequestError" "Could not refresh instance")

/-- Write a review; `reviewUid` is the fresh uid of its row. -/
def createReview (reviewUid spotUid userUid : String) (rating : ℤ) (content : Option String) :
    App SpotReview := do
  match ← getActiveReview spotUid userUid with
  | some _ => .raise (.app .reviewAlreadyExists "이미 이 spot에 작성한 리뷰가 있습니다")
  | none => do
    execute (insertReviewRow
      { uid := reviewUid, spotUid := spotUid, userId := userUid, rating := rating,
        content := content, createdAt := some now, updatedAt := some now })
    recalculateSpotRating be now spotUid
    commit
    let review ← refreshReview reviewUid
    Cache.invalidateSpotDetail cfg spotUid
    return review

/-- The pairs of an update dictionary set in a row, and `updated_at`. -/
def setReview (data : List ReviewAttr) : Rewrite SpotReview.uid where
  apply r := (ReviewAttr.setAll data r).map fun r => { r with updatedAt := some now }
  keeps h := by
    obtain ⟨t, ht, rfl⟩ := Option.map_eq_some_iff.1 h
    have huid : t.uid = _ := (ReviewAttr.keeps_of_setAll ht).1
    exact huid

/-- The flush of the changed pairs of `data`. -/
def flushReview (loaded : SpotReview) (data : List ReviewAttr) : App Unit :=
  let changed := data.filter fun a => !a.unchanged loaded
  if changed.isEmpty then .ret ()
  else if changed.all ReviewAttr.storable then do
    let found ← execute (updateReviewRow loaded.uid (setReview now changed))
    if found then .ret () else .raise staleDataError
  else .raise textNotStorable

/-- Partial update of a loaded review; the aggregates follow when the rating is among
the pairs. -/
def updateReview (review : SpotReview) (data : List ReviewAttr) : App SpotReview := do
  flushReview now review data
  whenever (data.any ReviewAttr.isRating) (recalculateSpotRating be now review.spotUid)
  commit
  let fresh ← refreshReview review.uid
  whenever (data.any ReviewAttr.isRating) (Cache.invalidateSpotDetail cfg review.spotUid)
  return fresh

/-- `UPDATE spot_reviews SET deleted_at = now() WHERE uid = ..`. -/
def markReviewDeleted (uid : String) : Statement Bool :=
  updateReviewRow uid
    (.total (fun r => { r with deletedAt := some now, updatedAt := some now }) fun _ => rfl)

/-- Soft deletion of a loaded review. -/
def softDeleteReview (review : SpotReview) : App Unit := do
  let _ ← execute (markReviewDeleted now review.uid)
  recalculateSpotRating be now review.spotUid
  commit
  Cache.invalidateSpotDetail cfg review.spotUid

end Writers

end Vivac
