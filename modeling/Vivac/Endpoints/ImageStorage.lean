import Vivac.Endpoints.SpotContent
import Vivac.Lib.ObjectStore

/-!
# Images and their objects

`core/storage.py`, and `register_image` of `internal_spot_images.py` over the object storage: what
is stored is the size of an object. Each step of the request that the storage or the database
carries out may raise, before or after it is carried out.
-/

set_option autoImplicit false

namespace Vivac

open Lib App

abbrev StorageCommand := DepotCmd Db RowKey Change Body Exc ℕ

/-- A program of the application that uses the object storage. -/
abbrev StorageApp (α : Type) := Prog Exc StorageCommand α

/-- The shared state of the sessions `ι` and the object storage. -/
abbrev StorageState (ι : Type) := Depot ι Db RowKey Change Body ℕ

instance storeFaultsExc : StoreFaults Exc where
  noSuchKey := .client ("An error occurred (NoSuchKey) when calling the CopyObject operation: " ++
    "The specified key does not exist.")

namespace Storage

/-- `head_object`. -/
def headObject (key : String) : StorageApp (Option ℕ) := .perform (.store (.head key))

/-- `delete_object`. -/
def deleteObject (key : String) : StorageApp Unit := .perform (.store (.delete key))

/-- `copy_object`. -/
def copyObject (srcKey destKey : String) : StorageApp Unit :=
  .perform (.store (.copy srcKey destKey))

/-- A client's PUT to a presigned URL. -/
def putObject (key : String) (size : ℕ) : StorageApp Unit := .perform (.store (.put key size))

variable {α : Type}

/-- What the request does in its session. -/
def inSession (p : App α) : StorageApp α := p.via .base

/-- `try: p  except Exception as exc: h exc`. -/
def tryExcept (p : StorageApp α) (h : Exc → StorageApp α) : StorageApp α :=
  p.tryCatch fun e => if e.isException then h e else .raise e

/-- `try: p  except ClientError: log`. -/
def tryClientError (p : StorageApp Unit) : StorageApp Unit :=
  p.tryCatch fun e => if e.isClientError then .ret () else .raise e

/-- Leaving the session of the request. -/
def withSession (p : StorageApp α) : StorageApp α :=
  p.attempt.bind fun r => inSession (closeSession r)

end Storage

namespace ImageRegistration

open Storage

/-- The steps of `register_image` that the storage and the database carry out. -/
inductive RegisterStep where
  | head
  | dropOversize
  | copy
  | insert
  | commit
  | refresh
  | rollBack
  | dropPending
  deriving DecidableEq

/-- An exception, with whether the step was carried out. -/
structure Mishap where
  error : Exc
  carriedOut : Bool

/-- What goes wrong in one request. -/
abbrev Mishaps := RegisterStep → Option Mishap

/-- A step that goes wrong as `m` says, if at all. -/
def step {α : Type} (m : Option Mishap) (p : StorageApp α) : StorageApp α :=
  match m with
  | none => p
  | some m => if m.carriedOut then p.bind fun _ => .raise m.error else .raise m.error

section

variable (cfg : Settings) (now : Timestamp) (mishaps : Mishaps)

/-- The row that a request inserts. -/
def newImage (imageUid spotUid s3Key : String) (payload : SpotImageRegister) : SpotImage where
  uid := imageUid
  spotUid := spotUid
  s3Key := s3Key
  role := payload.role
  sortOrder := payload.sortOrder
  isPublic := payload.isPublic
  contentType := payload.contentType
  createdAt := some now
  updatedAt := some now

/-- `create_image`. -/
def createImage (imageUid spotUid s3Key : String) (payload : SpotImageRegister) :
    StorageApp SpotImage := do
  step (mishaps .insert)
    (inSession (execute (insertImageRow (newImage now imageUid spotUid s3Key payload))))
  step (mishaps .commit) (inSession commit)
  let image ← step (mishaps .refresh) (inSession (refreshImage imageUid))
  inSession (Cache.bumpSpotsVersion cfg)
  inSession (Cache.invalidateSpotDetail cfg spotUid)
  return image

/-- The size of the uploaded object. One that is too large is deleted, and refused whether or not
that goes through. -/
def checkSize (limits : ImageLimits) (s3Key : String) : StorageApp Unit := do
  match ← step (mishaps .head) (headObject s3Key) with
  | none => .raise (.app .validationError "Uploaded object not found in storage")
  | some size =>
    if limits.maxBytes < size then do
      tryClientError (step (mishaps .dropOversize) (deleteObject s3Key))
      .raise (.app .spotImageTooLarge ("Image exceeds the " ++
        toString (limits.maxBytes / (1024 * 1024)) ++ "MB limit"))
    else return ()

/-- The final place of an uploaded object. -/
def finalKey (spotUid key : String) : String := "spots/" ++ spotUid ++ "/" ++ key

/-- The final place of an uploaded object, when the spot may have it as one more image. -/
def checkUpload (limits : ImageLimits) (uid s3Key : String) : StorageApp String := do
  let _ ← inSession (InternalSpots.findSpot cfg uid)
  match SpotImages.pendingKey uid s3Key with
  | none => .raise (.app .validationError "s3_key does not belong to this spot")
  | some key => do
    let currentCount ← inSession (countImagesBySpot uid)
    if limits.maxCountPerSpot ≤ currentCount then
      .raise (.app .spotImageCountLimitExceeded ("Spot already has the maximum of " ++
        toString limits.maxCountPerSpot ++ " images"))
    else do
      checkSize mishaps limits s3Key
      return finalKey uid key

/-- The `except` block around `create_image`: the copy is deleted, and the exception goes on. -/
def rollBackCopy {α : Type} (key : String) (e : Exc) : StorageApp α := do
  tryExcept (step (mishaps .rollBack) (deleteObject key)) fun _ => .ret ()
  .raise e

/-- `register_image`; `imageUid` is the fresh uid of the row. -/
def registerImage (limits : ImageLimits) (peer : Peer) (credentials : Credentials)
    (uid imageUid : String) (payload : SpotImageRegister) : StorageApp SpotImage := do
  let _ ← inSession (requireStaff credentials)
  inSession (checkRateLimit SpotImages.uploadLimit peer credentials)
  let key ← checkUpload cfg mishaps limits uid payload.s3Key
  step (mishaps .copy) (copyObject payload.s3Key key)
  let image ← tryExcept (createImage cfg now mishaps imageUid uid key payload)
    (rollBackCopy mishaps key)
  step (mishaps .dropPending) (deleteObject payload.s3Key)
  return image

end

/-- A request in which nothing goes wrong creates its row as the session alone would. -/
theorem createImage_eq (cfg : Settings) (now : Timestamp) (imageUid spotUid s3Key : String)
    (payload : SpotImageRegister) :
    createImage cfg now (fun _ => none) imageUid spotUid s3Key payload =
      inSession (Vivac.createImage cfg now imageUid spotUid s3Key payload.role payload.sortOrder
        payload.isPublic payload.contentType) := by
  unfold createImage Vivac.createImage inSession
  simp only [step, Prog.bind_eq_bind, Prog.pure_eq_ret, Prog.via_bind]
  rfl

end ImageRegistration

end Vivac
