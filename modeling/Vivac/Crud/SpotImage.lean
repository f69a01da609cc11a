import Vivac.Core.Contracts
import Vivac.Crud.Spot
import Vivac.Lib.OffsetPages

/-!
# Spot images

`crud/spot_image.py`. An image shows in the list and in the detail of its spot, so
its writers raise both versions.
-/

set_option autoImplicit false

namespace Vivac

open Lib App

namespace ImageAttr

/-- `setattr(image, key, value)`; every column is NOT NULL. -/
def set (a : ImageAttr) (i : SpotImage) : Option SpotImage :=
  match a with
  | .role v => v.map fun v => { i with role := v }
  | .sortOrder v => v.map fun v => { i with sortOrder := v }
  | .isPublic v => v.map fun v => { i with isPublic := v }

def unchanged (a : ImageAttr) (i : SpotImage) : Bool :=
  match a with
  | .role v => v == some i.role
  | .sortOrder v => v == some i.sortOrder
  | .isPublic v => v == some i.isPublic

def setAll : List ImageAttr → SpotImage → Option SpotImage
  | [], i => some i
  | a :: as, i => (a.set i).bind (setAll as)

theorem keeps_of_setAll {as : List ImageAttr} {i i' : SpotImage} (h : setAll as i = some i') :
    i'.uid = i.uid ∧ i'.spotUid = i.spotUid := by
  induction as generalizing i with
  | nil =>
    cases h
    exact ⟨rfl, rfl⟩
  | cons a as ih =>
    obtain ⟨t, ht, hi'⟩ := Option.bind_eq_some_iff.1 h
    obtain ⟨h₁, h₂⟩ := ih hi'
    cases a with
    | role v | sortOrder v | isPublic v =>
      obtain ⟨w, -, rfl⟩ := Option.map_eq_some_iff.1 ht
      exact ⟨h₁, h₂⟩

end ImageAttr

/-- `ORDER BY sort_order, created_at`. -/
def imageOrder : RowOrder SpotImage :=
  ((RowOrder.ofLinear ℤ).on SpotImage.sortOrder).thenBy
    ((RowOrder.ofLinear Timestamp).nullsLast.on SpotImage.createdAt)

def imageBefore (a b : SpotImage) : Bool := imageOrder.le a b

/-- The images of a spot that are not deleted, in display order. -/
def activeImages (spotUid : String) (d : Db) : List SpotImage :=
  (d.images.select fun i => i.spotUid == spotUid && i.deletedAt.isNone).insertionSort
    fun a b => imageBefore a b

/-- The database arranges images that tie as it likes. -/
def listImagesBySpot (spotUid : String)
    (found : imageOrder.Arrangement := imageOrder.stable) : App (List SpotImage) :=
  select fun d => found.run (d.images.select fun i => i.spotUid == spotUid && i.deletedAt.isNone)

/-- `ORDER BY spot_uid, sort_order, created_at`, in the database's order of texts. -/
def thumbnailOrder (texts : RowOrder String) : RowOrder SpotImage :=
  (texts.on SpotImage.spotUid).thenBy imageOrder

/-- `thumbnails.setdefault(image.spot_uid, image)`. -/
def setDefault (thumbnails : List (String × SpotImage)) (image : SpotImage) :
    List (String × SpotImage) :=
  if (thumbnails.lookup image.spotUid).isSome then thumbnails
  else thumbnails ++ [(image.spotUid, image)]

/-- The representative image of each spot: its first THUMBNAIL in display order. -/
def getThumbnailsBySpots (spotUids : List String)
    (texts : RowOrder String := RowOrder.ofLinear String)
    (found : (thumbnailOrder texts).Arrangement := (thumbnailOrder texts).stable) :
    App (List (String × SpotImage)) :=
  if spotUids.isEmpty then .ret []
  else select fun d => (found.run (d.images.select fun i =>
    spotUids.contains i.spotUid && i.role == .thumbnail && i.deletedAt.isNone)).foldl setDefault []

theorem readOnly_getThumbnailsBySpots (spotUids : List String) :
    ReadOnly (getThumbnailsBySpots spotUids) := by
  unfold getThumbnailsBySpots
  split
  · exact .ret _
  · exact ReadOnly.select _

def countImagesBySpot (spotUid : String) : App ℕ :=
  select fun d => (activeImages spotUid d).length

/-- An image of the given spot that is not deleted. -/
def getImageByUid (spotUid imageUid : String) : App (Option SpotImage) :=
  select fun d => (d.images.find? imageUid).filter fun i =>
    i.spotUid == spotUid && i.deletedAt.isNone

/-- `session.refresh(image)`. -/
def refreshImage (uid : String) : App SpotImage := do
  match ← select fun d => d.images.find? uid with
  | some i => return i
  | none => .raise (.database "InvalidRequestError" "Could not refresh instance")

/-- `INSERT INTO spot_images`. -/
def insertImageRow (i : SpotImage) : Statement Unit :=
  fun _ d =>
    if (d.images.find? i.uid).isSome then .error (integrityError "spot_images_pkey")
    else if (d.spots.find? i.spotUid).isNone then .error (integrityError "foreign key constraint")
    else .ok ⟨(), fun d => { d with images := d.images.insert i }, [.image i.uid],
      [.image i.uid i.spotUid]⟩

/-- Replace the image `uid` by its new version. -/
def rewriteImage (uid : String) (f : Rewrite SpotImage.uid) (d : Db) : Db :=
  { d with images := d.images.rewrite (fun i => i.uid == uid) f }

/-- `UPDATE spot_images SET .. WHERE uid = ..`; answers whether a row matched. -/
def updateImageRow (uid : String) (f : Rewrite SpotImage.uid) : Statement Bool :=
  fun _ d =>
    match d.images.find? uid with
    | none => .ok ⟨false, id, [], []⟩
    | some i =>
      match f.apply i with
      | none => .error (integrityError "null value violates not-null constraint")
      | some _ => .ok ⟨true, rewriteImage uid f, [.image uid], [.image uid i.spotUid]⟩

section Writers

variable (cfg : Settings) (now : Timestamp)

/-- Register an image; `imageUid` is the fresh uid of its row. -/
def createImage (imageUid spotUid s3Key : String) (role : SpotImageRole) (sortOrder : ℤ)
    (isPublic : Bool) (contentType : Option String) : App SpotImage := do
  execute (insertImageRow
    { uid := imageUid, spotUid := spotUid, s3Key := s3Key, role := role, sortOrder := sortOrder,
      isPublic := isPublic, contentType := contentType, createdAt := some now,
      updatedAt := some now })
  commit
  let image ← refreshImage imageUid
  Cache.bumpSpotsVersion cfg
  Cache.invalidateSpotDetail cfg spotUid
  return image

/-- The pairs of an update dictionary set in a row, and `updated_at`. -/
def setImage (data : List ImageAttr) : Rewrite SpotImage.uid where
  apply i := (ImageAttr.setAll data i).map fun i => { i with updatedAt := some now }
  keeps h := by
    obtain ⟨t, ht, rfl⟩ := Option.map_eq_some_iff.1 h
    have huid : t.uid = _ := (ImageAttr.keeps_of_setAll ht).1
    exact huid

/-- The flush of the changed pairs of `data`. -/
def flushImage (loaded : SpotImage) (data : List ImageAttr) : App Unit :=
  let changed := data.filter fun a => !a.unchanged loaded
  if changed.isEmpty then .ret ()
  else do
    let found ← execute (updateImageRow loaded.uid (setImage now changed))
    if found then .ret () else .raise staleDataError

/-- Partial update of a loaded image. -/
def updateImage (image : SpotImage) (data : List ImageAttr) : App SpotImage := do
  flushImage now image data
  commit
  let fresh ← refreshImage image.uid
  Cache.bumpSpotsVersion cfg
  Cache.invalidateSpotDetail cfg image.spotUid
  return fresh

/-- Soft deletion of a loaded image: the flush of `deleted_at`. -/
def deleteImage (image : SpotImage) : App Unit := do
  let found ← execute (updateImageRow image.uid
    (.total (fun i => { i with deletedAt := some now, updatedAt := some now }) fun _ => rfl))
  whenever (!found) (.raise staleDataError)
  commit
  Cache.bumpSpotsVersion cfg
  Cache.invalidateSpotDetail cfg image.spotUid

end Writers

end Vivac
