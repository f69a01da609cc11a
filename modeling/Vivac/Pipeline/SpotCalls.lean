import Vivac.Endpoints.SpotContent
import Vivac.Jobs.JobRows
import Vivac.Pipeline.SpotRows

/-!
# Calls that write spots

The requests of the internal spot endpoints and of the reviews, runs of the decay and cycles of
the worker, each as a program in a session of its own; and what commands they issue: a condition
that admits reads, commits and cache commands holds of a call when it holds of the call's writing
statements (`SpotCall.Writes`, `SpotCall.uses_program`).
-/

set_option autoImplicit false

namespace Vivac

open Lib App

/-! ## What the endpoints issue -/

namespace Admits

variable {ok : ∀ {β : Type}, Command β → Prop} {α : Type} (h : Admits ok)
include h

theorem invalidateSpots (cfg : Settings) (uids : List String) :
    (invalidateSpots cfg uids).Uses ok :=
  (h.bump cfg _).bind fun _ => Admits.forEach (fun _ => h.bump cfg _) uids

theorem getCurrentUser (credentials : Credentials) : (getCurrentUser credentials).Uses ok := by
  cases credentials with
  | access sub =>
      apply h.read_bind
      intro found
      cases found with
      | none => trivial
      | some user =>
          dsimp only
          split <;> trivial
  | missing => trivial
  | invalid => trivial
  | otherType => trivial

theorem requireStaff (credentials : Credentials) : (requireStaff credentials).Uses ok := by
  apply (h.getCurrentUser credentials).bind
  intro user
  split <;> trivial

theorem checkRateLimit (scope : LimitScope) (peer : Peer) (credentials : Credentials) :
    (checkRateLimit scope peer credentials).Uses ok := by
  have hcaller : (getCurrentUserOptional credentials).Uses ok := by
    cases credentials with
    | missing => trivial
    | access sub => exact (h.getCurrentUser (.access sub)).bind fun _ => trivial
    | invalid => trivial
    | otherType => trivial
  apply hcaller.bind
  intro user
  unfold decideLimit
  split
  · split <;> trivial
  · trivial

theorem requireStaffRole (minRole : StaffRole) (credentials : Credentials) :
    (InternalSpots.requireStaffRole minRole credentials).Uses ok := by
  apply (h.requireStaff credentials).bind
  intro staff
  have hrole : (requireRole minRole staff).Uses ok := Admits.whenever trivial
  apply hrole.bind
  intro _
  trivial

theorem checkAssignee (userUid : String) : (InternalSpots.checkAssignee userUid).Uses ok := by
  apply h.read_bind
  intro found
  cases found with
  | none => trivial
  | some target =>
      dsimp only
      split <;> trivial

theorem checkNewAssignee (userUid : Option String) :
    (InternalSpots.checkNewAssignee userUid).Uses ok := by
  cases userUid with
  | none => trivial
  | some userUid => exact h.checkAssignee userUid

theorem findSpot (cfg : Settings) (uid : String) :
    (InternalSpots.findSpot cfg uid).Uses ok := by
  apply h.read_bind
  intro found
  cases found <;> trivial

theorem refreshSpot (uid : String) : (refreshSpot uid).Uses ok := by
  apply h.read_bind
  intro found
  cases found <;> trivial

/-- A partial update issues the statement of its flush. -/
theorem updateSpot {cfg : Settings} {be : Backend} {now : Timestamp} {identity : Option Spot}
    {uid : String} {data : List SpotAttr}
    (hflush : ∀ loaded, (flushSpot be now loaded data).Uses ok) :
    (Vivac.updateSpot cfg be now identity uid data).Uses ok := by
  apply h.read_bind
  intro found
  cases found with
  | none => trivial
  | some row =>
      apply (hflush _).bind
      intro _
      apply h.commit_bind
      apply (h.refreshSpot uid).bind
      intro spot
      apply (h.bump cfg _).bind
      intro _
      apply (h.bump cfg _).bind
      intro _
      trivial

theorem updateLoaded {cfg : Settings} {be : Backend} {now : Timestamp} {current : Spot}
    {uid : String} {staff : User} {data : List SpotAttr}
    (hflush : ∀ loaded, (flushSpot be now loaded data).Uses ok) :
    (InternalSpots.updateLoaded cfg be now current uid staff data).Uses ok := by
  apply h.read_bind
  intro _
  apply (h.updateSpot hflush).bind
  intro found
  cases found <;> trivial

/-- Picking spots issues the locking statements, and the assignment one more. -/
theorem assignPicked {be : Backend} {now : Timestamp} {p : Spot → Bool} {userUid : String}
    (hlock : ∀ uid, ok (.sql (lockSpot p uid) : Command Bool))
    (hset : ∀ uids, ok (.sql (setAssigned be now uids userUid) : Command (List String)))
    (count : ℕ) : (assignPicked be now p userUid count).Uses ok := by
  have hpick : ∀ uids count, (lockSpots p count uids).Uses ok := by
    intro uids
    induction uids with
    | nil =>
        intro count
        cases count <;> trivial
    | cons uid uids ih =>
        intro count
        cases count with
        | zero => trivial
        | succ count =>
            apply (Prog.uses_perform (hlock uid)).bind
            intro locked
            split
            · exact (ih count).bind fun _ => by trivial
            · exact ih (count + 1)
  apply Prog.Uses.bind (h.read_bind fun uids => hpick uids count)
  intro uids
  split
  · trivial
  · apply (Prog.uses_perform (hset uids)).bind
    intro _
    apply h.commit_bind
    trivial

/-- A `SELECT` of a row that may be missing, answered or refused. -/
theorem refreshReview (uid : String) : (refreshReview uid).Uses ok := by
  apply h.read_bind
  intro found
  cases found <;> trivial

theorem refreshImage (uid : String) : (refreshImage uid).Uses ok := by
  apply h.read_bind
  intro found
  cases found <;> trivial

theorem findPublicSpot (cfg : Settings) (spotUid : String) :
    (SpotReviews.findPublicSpot cfg spotUid).Uses ok := by
  have hfind : (getSpotByUid cfg spotUid true).Uses ok :=
    (Prog.uses_ofExcept _).bind fun _ => h.select _
  apply hfind.bind
  intro found
  cases found <;> trivial

theorem findActiveReview (cfg : Settings) (spotUid reviewUid : String) :
    (SpotReviews.findActiveReview cfg spotUid reviewUid).Uses ok := by
  apply (h.findPublicSpot cfg spotUid).bind
  intro spot
  apply h.read_bind
  intro found
  cases found with
  | none => trivial
  | some review =>
      dsimp only
      split <;> trivial

theorem findImage (spotUid imageUid : String) :
    (SpotImages.findImage spotUid imageUid).Uses ok := by
  apply h.read_bind
  intro found
  cases found <;> trivial

/-- The checks of an upload read. -/
theorem checkUpload (cfg : Settings) (limits : ImageLimits) (storage : StorageAnswers)
    (uid key : String) : (SpotImages.checkUpload cfg limits storage uid key).Uses ok := by
  apply (h.findSpot cfg uid).bind
  intro _
  split
  · trivial
  · apply h.read_bind
    intro currentCount
    split
    · trivial
    · split
      · trivial
      · split <;> trivial

theorem recalculate {be : Backend} {now : Timestamp} {spotUid : String}
    (hset : ∀ avg count,
      ok (.sql (setAggregates be now spotUid avg count) : Command (List String))) :
    (recalculateSpotRating be now spotUid).Uses ok := by
  apply h.read_bind
  rintro ⟨avgRating, count⟩
  apply (Prog.uses_perform (hset _ _)).bind
  intro _
  trivial

end Admits

/-! ## Calls -/

/-- A call that writes spots, or may create a job. A new row and a new job come with their
fresh uids. -/
inductive SpotCall where
  | update (credentials : Credentials) (uid : String) (payload : SpotUpdate)
  | delete (credentials : Credentials) (uid : String)
  | restore (credentials : Credentials) (uid : String)
  | assign (credentials : Credentials) (userUid : String) (count : ℕ)
  | bulkAssign (credentials : Credentials) (spotUids : List String) (userUid : String)
  | transfer (credentials : Credentials) (fromUserUid toUserUid : String) (count : ℕ)
  | reassign (credentials : Credentials) (uid : String) (userUid : Option String)
  | bulkStatus (credentials : Credentials) (uids : List String) (status : PipelineStatus)
  | enqueueSpots (credentials : Credentials) (jobUid : String) (request : SpotBulkRequest)
  | enqueueInfo (credentials : Credentials) (jobUid : String)
      (request : SpotBusinessInfoBulkRequest)
  | registerImage (limits : ImageLimits) (storage : StorageAnswers) (peer : Peer)
      (credentials : Credentials) (uid imageUid : String) (payload : SpotImageRegister)
  | updateImage (credentials : Credentials) (uid imageUid : String) (data : List ImageAttr)
  | deleteImage (credentials : Credentials) (uid imageUid : String)
  | createReview (peer : Peer) (credentials : Credentials) (reviewUid spotUid : String)
      (rating : ℤ) (content : Option String)
  | updateReview (credentials : Credentials) (spotUid reviewUid : String) (data : List ReviewAttr)
  | deleteReview (credentials : Credentials) (spotUid reviewUid : String)
  | deleteOption (credentials : Credentials) (field : SpotOptionField) (code : String)
  | decay (thresholdDays : ℤ)
  | workerCycle (newUid : ℕ → String)

namespace SpotCall

/-- Whose request it is; decay and worker are nobody's. -/
def credentials? : SpotCall → Option Credentials
  | .update c _ _ | .delete c _ | .restore c _ | .assign c _ _ | .bulkAssign c _ _
  | .transfer c _ _ _ | .reassign c _ _ | .bulkStatus c _ _ | .enqueueSpots c _ _
  | .enqueueInfo c _ _ | .registerImage _ _ _ c _ _ _ | .updateImage c _ _ _ | .deleteImage c _ _
  | .createReview _ c _ _ _ _ | .updateReview c _ _ _ | .deleteReview c _ _
  | .deleteOption c _ _ => some c
  | .decay _ => none
  | .workerCycle _ => none

/-- The calls that write no table but `spots`: updates of a spot's columns, and its assignment. -/
def writesSpotOnly : SpotCall → Bool
  | .update _ _ _ | .delete _ _ | .restore _ _ | .assign _ _ _ | .bulkAssign _ _ _
  | .transfer _ _ _ _ | .reassign _ _ _ | .bulkStatus _ _ _ | .decay _ => true
  | _ => false

section

variable (cfg : Settings) (be : Backend) (now : Timestamp)

/-- What a request does in its session. -/
def body : SpotCall → App Unit
  | .update c uid payload => do
    let _ ← InternalSpots.updateSpot cfg be now c uid payload
  | .delete c uid => InternalSpots.deleteSpot cfg be now c uid
  | .restore c uid => do
    let _ ← InternalSpots.restoreSpot cfg be now c uid
  | .assign c userUid count => do
    let _ ← InternalSpots.assignSpots be now c userUid count
  | .bulkAssign c spotUids userUid => do
    let _ ← InternalSpots.bulkAssignSpots be now c spotUids userUid
  | .transfer c fromUserUid toUserUid count => do
    let _ ← InternalSpots.transferSpotAssignments be now c fromUserUid toUserUid count
  | .reassign c uid userUid => do
    let _ ← InternalSpots.reassignSpot cfg be now c uid userUid
  | .bulkStatus c uids status => do
    let _ ← InternalSpots.bulkUpdatePipelineStatus cfg be now c uids status
  | .enqueueSpots c jobUid request => do
    let _ ← InternalSpots.enqueueSpotsBulkUpsert now c jobUid request
  | .enqueueInfo c jobUid request => do
    let _ ← InternalSpots.enqueueSpotBusinessInfoBulkUpsert now c jobUid request
  | .registerImage limits storage peer c uid imageUid payload => do
    let _ ← SpotImages.registerImage cfg now limits storage peer c uid imageUid payload
  | .updateImage c uid imageUid data => do
    let _ ← SpotImages.updateImage cfg now c uid imageUid data
  | .deleteImage c uid imageUid => SpotImages.deleteImage cfg now c uid imageUid
  | .createReview peer c reviewUid spotUid rating content => do
    let _ ← SpotReviews.createReview cfg be now peer c reviewUid spotUid rating content
  | .updateReview c spotUid reviewUid data => do
    let _ ← SpotReviews.updateReview cfg be now c spotUid reviewUid data
  | .deleteReview c spotUid reviewUid => SpotReviews.deleteReview cfg be now c spotUid reviewUid
  | .deleteOption c field code => InternalSpots.deleteSpotOption be now c field code
  | .decay thresholdDays => do
    let _ ← decayStaleTrustTiers cfg be now thresholdDays
  | .workerCycle newUid => do
    let _ ← runWorkerCycle cfg be now newUid

/-- The program of a call; a cycle of the worker opens its sessions itself. -/
def program : SpotCall → App Unit
  | .workerCycle newUid => body cfg be now (.workerCycle newUid)
  | call => withSession (body cfg be now call)

end

end SpotCall

/-! ## What the calls write -/

namespace Spot

/-- The row after a bulk transition. -/
def withStatus (now : Timestamp) (status : PipelineStatus) (s : Spot) : Spot :=
  { s with pipelineStatus := status, updatedAt := some now }

/-- The row decay has given a lower tier. -/
def downgraded (now : Timestamp) (s : Spot) : Spot :=
  { s with
    trustTier := s.trustTier.map (· + 1)
    lastVerifiedAt := some now
    updatedAt := some now }

/-- The row decay has sent back to the queue. -/
def requeued (now : Timestamp) (s : Spot) : Spot :=
  { s with
    assignedToUid := none
    lastVerifiedAt := some now
    updatedAt := some now }

end Spot

section Statements

variable (be : Backend) (now : Timestamp)

/-- The statement of a bulk transition. -/
def setStatus (uids : List String) (status : PipelineStatus) : Statement (List String) :=
  updateSpots be (fun s => s.uid ∈ uids) (.total (Spot.withStatus now status) fun _ => rfl)
    ["pipeline_status"]

/-- The first statement of decay: a lower tier. -/
def downgradeStale (cutoff : Timestamp) : Statement (List String) :=
  updateSpots be (fun s => isStale cutoff s && s.trustTier.any fun t => t < 3)
    (.total (Spot.downgraded now) fun _ => rfl) ["trust_tier", "last_verified_at"]

/-- The second: the lowest tier goes back to the queue. -/
def requeueStale (cutoff : Timestamp) : Statement (List String) :=
  updateSpots be (fun s => isStale cutoff s && s.trustTier == some 3)
    (.total (Spot.requeued now) fun _ => rfl) ["assigned_to_uid", "last_verified_at"]

end Statements

/-- The statement leaves spots, jobs and users alone. -/
def WritesElsewhere {R : Type} (st : Statement R) : Prop :=
  ∀ locked d eff, st locked d = .ok eff → ∀ d', (eff.write d').spots = d'.spots ∧
    (eff.write d').jobs = d'.jobs ∧ (eff.write d').users = d'.users

section Elsewhere

variable (be : Backend) (now : Timestamp)

theorem elsewhere_lockSpot (p : Spot → Bool) (uid : String) :
    WritesElsewhere (lockSpot p uid) := by
  intro locked d eff heff d'
  rcases lockSpot_eq_ok heff with ⟨rfl, -⟩ | rfl <;> exact ⟨rfl, rfl, rfl⟩

theorem elsewhere_insertImageRow (image : SpotImage) :
    WritesElsewhere (insertImageRow image) := by
  intro locked d eff heff d'
  simp only [insertImageRow] at heff
  split at heff
  · cases heff
  · split at heff
    · cases heff
    · cases heff
      exact ⟨rfl, rfl, rfl⟩

theorem elsewhere_updateImageRow (uid : String) (f : Rewrite SpotImage.uid) :
    WritesElsewhere (updateImageRow uid f) := by
  intro locked d eff heff d'
  simp only [updateImageRow] at heff
  split at heff
  · cases heff
    exact ⟨rfl, rfl, rfl⟩
  · split at heff
    · cases heff
    · cases heff
      exact ⟨rfl, rfl, rfl⟩

theorem elsewhere_insertReviewRow (review : SpotReview) :
    WritesElsewhere (insertReviewRow review) := by
  intro locked d eff heff d'
  rcases insertReviewRow_eq_ok heff with ⟨uid, -, rfl⟩ | ⟨-, rfl⟩
  · exact ⟨rfl, rfl, rfl⟩
  · exact ⟨rfl, rfl, rfl⟩

theorem elsewhere_updateReviewRow (uid : String) (f : Rewrite SpotReview.uid) :
    WritesElsewhere (updateReviewRow uid f) := by
  intro locked d eff heff d'
  simp only [updateReviewRow] at heff
  split at heff
  · cases heff
    exact ⟨rfl, rfl, rfl⟩
  · split at heff
    · cases heff
    · split at heff
      · cases heff
        exact ⟨rfl, rfl, rfl⟩
      · cases heff

theorem elsewhere_deleteFieldOptionRow (field : SpotOptionField) (code : String) :
    WritesElsewhere (deleteFieldOptionRow field code) := by
  intro locked d eff heff d'
  simp only [deleteFieldOptionRow] at heff
  split at heff <;> cases heff <;> exact ⟨rfl, rfl, rfl⟩

theorem elsewhere_updateInfoRow (uid : String) (fields : List InfoAttr) :
    WritesElsewhere (updateInfoRow be now uid fields) := by
  intro locked d eff heff d'
  simp only [updateInfoRow] at heff
  split at heff
  · cases heff
    exact ⟨rfl, rfl, rfl⟩
  · split at heff
    · cases heff
    · cases heff
      exact ⟨rfl, rfl, rfl⟩

theorem elsewhere_insertInfoRow (info : SpotBusinessInfo) :
    WritesElsewhere (insertInfoRow be info) := by
  intro locked d eff heff d'
  simp only [insertInfoRow] at heff
  split at heff
  · cases heff
  · split at heff
    · cases heff
    · split at heff
      · cases heff
      · split at heff
        · cases heff
        · cases heff
          exact ⟨rfl, rfl, rfl⟩

end Elsewhere

namespace SpotCall

section

variable (ok : ∀ {β : Type}, Command β → Prop) (be : Backend) (now : Timestamp)

/-- The statements that pick spots and assign them meet `ok`. -/
def PickWrites : Prop :=
  (∀ p uid, ok (.sql (lockSpot p uid) : Command Bool)) ∧
    ∀ uids userUid, ok (.sql (setAssigned be now uids userUid) : Command (List String))

/-- The statement that sets the aggregates of a spot meets `ok`. -/
def RatingWrites : Prop :=
  ∀ uid avg count, ok (.sql (setAggregates be now uid avg count) : Command (List String))

/-- The statements of the worker meet `ok`. -/
structure WorkerWrites : Prop where
  lockPending : ∀ uid, ok (.sql (lockPending uid) : Command (Option Job))
  startJob : ∀ uid, ok (.sql (startJob now uid) : Command (List String))
  updateJobs : ∀ uid outcome, ok (.sql (updateJobs (fun j => j.uid == uid)
    (recordOutcome now outcome)) : Command (List String))
  insertOnConflict : ∀ uid row, ok (.sql (insertOnConflict be now uid row) : Command (List String))
  updateInfoRow : ∀ uid fields, ok (.sql (updateInfoRow be now uid fields) : Command Bool)
  insertInfoRow : ∀ info, ok (.sql (insertInfoRow be info) : Command Unit)

/-- The statements by which a call writes meet `ok`. -/
def Writes : SpotCall → Prop
  | .update _ _ payload => ∀ loaded, (flushSpot be now loaded payload.data).Uses ok
  | .delete _ _ => ∀ uid, ok (.sql (setDeletedAt be now uid (some now)) : Command (List String))
  | .restore _ _ => ∀ uid, ok (.sql (setDeletedAt be now uid none) : Command (List String))
  | .assign _ _ _ => PickWrites ok be now
  | .bulkAssign _ _ _ =>
    ∀ uids userUid, ok (.sql (setAssigned be now uids userUid) : Command (List String))
  | .transfer _ _ _ _ => PickWrites ok be now
  | .reassign _ _ userUid =>
    ∀ loaded, (flushSpot be now loaded [.assignedToUid userUid]).Uses ok
  | .bulkStatus _ _ status =>
    ∀ uids, ok (.sql (setStatus be now uids status) : Command (List String))
  | .enqueueSpots _ _ request =>
    ∀ job : Job, job.payload = .spots request → ok (.sql (insertJob job) : Command Unit)
  | .enqueueInfo _ _ request =>
    ∀ job : Job, job.payload = .businessInfo request → ok (.sql (insertJob job) : Command Unit)
  | .registerImage _ _ _ _ _ _ _ => ∀ image, ok (.sql (insertImageRow image) : Command Unit)
  | .updateImage _ _ _ _ => ∀ uid f, ok (.sql (updateImageRow uid f) : Command Bool)
  | .deleteImage _ _ _ => ∀ uid f, ok (.sql (updateImageRow uid f) : Command Bool)
  | .createReview _ _ _ _ _ _ =>
    (∀ review, ok (.sql (insertReviewRow review) : Command Unit)) ∧ RatingWrites ok be now
  | .updateReview _ _ _ _ =>
    (∀ uid f, ok (.sql (updateReviewRow uid f) : Command Bool)) ∧ RatingWrites ok be now
  | .deleteReview _ _ _ =>
    (∀ uid f, ok (.sql (updateReviewRow uid f) : Command Bool)) ∧ RatingWrites ok be now
  | .deleteOption _ field code =>
    ok (.sql (removeFromSpots be now field code) : Command (List String)) ∧
      ok (.sql (deleteFieldOptionRow field code) : Command Unit)
  | .decay thresholdDays =>
    ok (.sql (downgradeStale be now (now - daysMicros thresholdDays)) : Command (List String)) ∧
      ok (.sql (requeueStale be now (now - daysMicros thresholdDays)) : Command (List String))
  | .workerCycle _ => WorkerWrites ok be now

end

variable {ok : ∀ {β : Type}, Command β → Prop} {be : Backend} {now : Timestamp}

theorem uses_registerImage (h : Admits ok) (cfg : Settings) (limits : ImageLimits)
    (storage : StorageAnswers) (peer : Peer) (credentials : Credentials) (uid imageUid : String)
    (payload : SpotImageRegister)
    (hinsert : ∀ image, ok (.sql (insertImageRow image) : Command Unit)) :
    (SpotImages.registerImage cfg now limits storage peer credentials uid imageUid
      payload).Uses ok := by
  apply (h.requireStaff credentials).bind
  intro _
  apply (h.checkRateLimit _ peer credentials).bind
  intro _
  apply (h.checkUpload cfg limits storage uid payload.s3Key).bind
  intro finalKey
  apply (Prog.uses_ofExcept _).bind
  intro _
  apply Prog.Uses.bind
  · apply (Prog.uses_perform (hinsert _)).bind
    intro _
    apply h.commit_bind
    apply (h.refreshImage imageUid).bind
    intro image
    apply (h.bump cfg _).bind
    intro _
    apply (h.bump cfg _).bind
    intro _
    trivial
  · intro image
    apply (Prog.uses_ofExcept _).bind
    intro _
    trivial

theorem uses_updateImage (h : Admits ok) (cfg : Settings) (credentials : Credentials)
    (uid imageUid : String) (data : List ImageAttr)
    (hupdate : ∀ uid f, ok (.sql (updateImageRow uid f) : Command Bool)) :
    (SpotImages.updateImage cfg now credentials uid imageUid data).Uses ok := by
  apply (h.requireStaff credentials).bind
  intro _
  apply (h.findImage uid imageUid).bind
  intro image
  have hflush : (flushImage now image data).Uses ok := by
    unfold flushImage
    dsimp only
    split
    · trivial
    · apply (Prog.uses_perform (hupdate _ _)).bind
      intro found
      split <;> trivial
  apply hflush.bind
  intro _
  apply h.commit_bind
  apply (h.refreshImage image.uid).bind
  intro fresh
  apply (h.bump cfg _).bind
  intro _
  apply (h.bump cfg _).bind
  intro _
  trivial

theorem uses_deleteImage (h : Admits ok) (cfg : Settings) (credentials : Credentials)
    (uid imageUid : String)
    (hupdate : ∀ uid f, ok (.sql (updateImageRow uid f) : Command Bool)) :
    (SpotImages.deleteImage cfg now credentials uid imageUid).Uses ok := by
  apply (h.requireStaff credentials).bind
  intro _
  apply (h.findImage uid imageUid).bind
  intro image
  apply (Prog.uses_perform (hupdate _ _)).bind
  intro found
  have hmissing : (App.whenever (!found) (.raise staleDataError)).Uses ok :=
    Admits.whenever trivial
  apply hmissing.bind
  intro _
  apply h.commit_bind
  apply (h.bump cfg _).bind
  intro _
  exact h.bump cfg _

theorem uses_createReview (h : Admits ok) (cfg : Settings) (peer : Peer)
    (credentials : Credentials) (reviewUid spotUid : String) (rating : ℤ) (content : Option String)
    (hinsert : ∀ review, ok (.sql (insertReviewRow review) : Command Unit))
    (hrate : RatingWrites ok be now) :
    (SpotReviews.createReview cfg be now peer credentials reviewUid spotUid rating
      content).Uses ok := by
  apply (h.checkRateLimit _ peer credentials).bind
  intro _
  apply (h.findPublicSpot cfg spotUid).bind
  intro spot
  apply (h.getCurrentUser credentials).bind
  intro user
  apply h.read_bind
  intro existing
  cases existing with
  | some review => trivial
  | none =>
      apply (Prog.uses_perform (hinsert _)).bind
      intro _
      apply (h.recalculate (hrate spot.uid)).bind
      intro _
      apply h.commit_bind
      apply (h.refreshReview reviewUid).bind
      intro review
      apply (h.bump cfg _).bind
      intro _
      trivial

theorem uses_updateReview (h : Admits ok) (cfg : Settings) (credentials : Credentials)
    (spotUid reviewUid : String) (data : List ReviewAttr)
    (hupdate : ∀ uid f, ok (.sql (updateReviewRow uid f) : Command Bool))
    (hrate : RatingWrites ok be now) :
    (SpotReviews.updateReview cfg be now credentials spotUid reviewUid data).Uses ok := by
  apply (h.findActiveReview cfg spotUid reviewUid).bind
  intro review
  apply (h.getCurrentUser credentials).bind
  intro user
  split
  · trivial
  · have hflush : (flushReview now review data).Uses ok := by
      unfold flushReview
      dsimp only
      split
      · trivial
      · split
        · apply (Prog.uses_perform (hupdate _ _)).bind
          intro found
          split <;> trivial
        · trivial
    apply hflush.bind
    intro _
    apply (Admits.whenever (h.recalculate (hrate review.spotUid))).bind
    intro _
    apply h.commit_bind
    apply (h.refreshReview review.uid).bind
    intro fresh
    apply (Admits.whenever (h.bump cfg _)).bind
    intro _
    trivial

theorem uses_deleteReview (h : Admits ok) (cfg : Settings) (credentials : Credentials)
    (spotUid reviewUid : String)
    (hupdate : ∀ uid f, ok (.sql (updateReviewRow uid f) : Command Bool))
    (hrate : RatingWrites ok be now) :
    (SpotReviews.deleteReview cfg be now credentials spotUid reviewUid).Uses ok := by
  apply (h.findActiveReview cfg spotUid reviewUid).bind
  intro review
  apply (h.getCurrentUser credentials).bind
  intro user
  split
  · trivial
  · apply (Prog.uses_perform (hupdate _ _)).bind
    intro _
    apply (h.recalculate (hrate review.spotUid)).bind
    intro _
    apply h.commit_bind
    exact h.bump cfg _

theorem uses_deleteOption (h : Admits ok) (credentials : Credentials) (field : SpotOptionField)
    (code : String)
    (hremove : ok (.sql (removeFromSpots be now field code) : Command (List String)))
    (hdelete : ok (.sql (deleteFieldOptionRow field code) : Command Unit)) :
    (InternalSpots.deleteSpotOption be now credentials field code).Uses ok := by
  apply (h.requireStaffRole .manager credentials).bind
  intro _
  apply Prog.Uses.bind
  · apply h.read_bind
    intro found
    cases found with
    | none => trivial
    | some option =>
        apply (Prog.uses_perform hremove).bind
        intro _
        apply (Prog.uses_perform hdelete).bind
        intro _
        apply h.commit_bind
        trivial
  · intro deleted
    exact Admits.whenever trivial

theorem uses_decay (h : Admits ok) (cfg : Settings) (thresholdDays : ℤ)
    (hdowngrade : ok (.sql (downgradeStale be now (now - daysMicros thresholdDays)) :
      Command (List String)))
    (hrequeue : ok (.sql (requeueStale be now (now - daysMicros thresholdDays)) :
      Command (List String))) :
    (decayStaleTrustTiers cfg be now thresholdDays).Uses ok := by
  apply (Prog.uses_perform hdowngrade).bind
  intro downgraded
  apply (Prog.uses_perform hrequeue).bind
  intro requeued
  apply h.commit_bind
  split
  · trivial
  · apply (h.invalidateSpots cfg downgraded).bind
    intro _
    trivial

theorem uses_workerCycle (h : AdmitsNested ok) (cfg : Settings) (newUid : ℕ → String)
    (hw : WorkerWrites ok be now) : (runWorkerCycle cfg be now newUid).Uses ok := by
  have hclaim : (claimNextJob now).Uses ok := by
    have hlock : lockPendingJob.Uses ok := by
      apply h.read_bind
      intro uids
      induction uids with
      | nil => trivial
      | cons uid uids ih =>
          apply (Prog.uses_perform (hw.lockPending uid)).bind
          intro job
          cases job with
          | some job => trivial
          | none => exact ih
    apply hlock.bind
    intro job
    cases job with
    | none => trivial
    | some job =>
        apply (Prog.uses_perform (hw.startJob job.uid)).bind
        intro uids
        split
        · trivial
        · apply h.commit_bind
          apply Prog.Uses.bind
          · apply h.read_bind
            intro found
            cases found <;> trivial
          · exact fun _ => trivial
  have hhandler : ∀ payload, (runHandler cfg be now newUid payload).Uses ok :=
    h.runHandler cfg be now newUid hw.insertOnConflict hw.updateInfoRow hw.insertInfoRow
  have hprocess : ∀ uid, (processClaimed cfg be now newUid uid).Uses ok := by
    intro uid
    have hreload : (reloadJob uid).Uses ok := by
      apply h.read_bind
      intro found
      cases found <;> trivial
    apply hreload.bind
    intro job
    apply h.read_bind
    intro _
    apply (hhandler job.payload).attempt.bind
    intro outcome
    have hflush : (flushJob job.uid (recordOutcome now outcome)).Uses ok := by
      apply (Prog.uses_perform (hw.updateJobs _ _)).bind
      intro uids
      split <;> trivial
    apply hflush.bind
    intro _
    apply h.commit_bind
    cases outcome with
    | ok result => trivial
    | error e =>
        dsimp only
        split <;> trivial
  apply (h.session hclaim).bind
  intro job
  cases job with
  | none => trivial
  | some job =>
      apply (h.session (hprocess job.uid)).bind
      intro _
      trivial

/-- A body issues what its writing statements allow. -/
theorem uses_body (h : AdmitsNested ok) (cfg : Settings) (call : SpotCall)
    (hw : call.Writes ok be now) : (call.body cfg be now).Uses ok := by
  have hdone : ∀ {α : Type} {p : App α}, p.Uses ok → (p.bind fun _ => .ret ()).Uses ok :=
    fun hp => hp.bind fun _ => trivial
  cases call with
  | update credentials uid payload =>
      apply hdone
      apply (h.requireStaff credentials).bind
      intro staff
      apply (h.findSpot cfg uid).bind
      intro current
      split
      · trivial
      · exact h.updateLoaded hw
  | delete credentials uid =>
      apply (h.requireStaffRole .manager credentials).bind
      intro staff
      apply (h.findSpot cfg uid).bind
      intro spot
      apply h.read_bind
      intro _
      apply (Prog.uses_perform (hw spot.uid)).bind
      intro _
      apply h.commit_bind
      apply (h.bump cfg _).bind
      intro _
      exact h.bump cfg _
  | restore credentials uid =>
      apply hdone
      apply (h.requireStaffRole .manager credentials).bind
      intro staff
      apply (h.findSpot cfg uid).bind
      intro spot
      apply h.read_bind
      intro _
      apply (Prog.uses_perform (hw spot.uid)).bind
      intro _
      apply h.commit_bind
      apply (h.refreshSpot spot.uid).bind
      intro fresh
      apply (h.bump cfg _).bind
      intro _
      apply (h.bump cfg _).bind
      intro _
      trivial
  | assign credentials userUid count =>
      apply hdone
      apply (h.requireStaffRole .manager credentials).bind
      intro staff
      apply (h.checkAssignee userUid).bind
      intro _
      apply h.read_bind
      intro _
      exact h.assignPicked (hw.1 _) (fun uids => hw.2 uids userUid) count
  | bulkAssign credentials spotUids userUid =>
      apply hdone
      apply (h.requireStaffRole .manager credentials).bind
      intro staff
      apply (h.checkAssignee userUid).bind
      intro _
      apply h.read_bind
      intro _
      apply (Prog.uses_perform (hw spotUids userUid)).bind
      intro uids
      apply h.commit_bind
      trivial
  | transfer credentials fromUserUid toUserUid count =>
      apply hdone
      apply (h.requireStaffRole .manager credentials).bind
      intro staff
      apply (h.checkAssignee toUserUid).bind
      intro _
      apply h.read_bind
      intro _
      exact h.assignPicked (hw.1 _) (fun uids => hw.2 uids toUserUid) count
  | reassign credentials uid userUid =>
      apply hdone
      apply (h.requireStaffRole .manager credentials).bind
      intro staff
      apply (h.findSpot cfg uid).bind
      intro current
      apply (h.checkNewAssignee userUid).bind
      intro _
      exact h.updateLoaded hw
  | bulkStatus credentials uids status =>
      apply hdone
      apply (h.requireStaffRole .superuser credentials).bind
      intro staff
      apply h.read_bind
      intro _
      apply Prog.Uses.bind
      · apply h.read_bind
        intro found
        split
        · trivial
        · apply (Prog.uses_perform (hw found)).bind
          intro _
          apply h.commit_bind
          apply (h.invalidateSpots cfg found).bind
          intro _
          trivial
      · exact fun _ => trivial
  | enqueueSpots credentials jobUid request =>
      apply hdone
      apply (h.requireStaffRole .superuser credentials).bind
      intro staff
      apply (Prog.uses_perform (hw _ rfl)).bind
      intro _
      apply h.commit_bind
      apply Prog.Uses.bind
      · apply h.read_bind
        intro found
        cases found <;> trivial
      · exact fun _ => trivial
  | enqueueInfo credentials jobUid request =>
      apply hdone
      apply (h.requireStaff credentials).bind
      intro staff
      apply (Prog.uses_perform (hw _ rfl)).bind
      intro _
      apply h.commit_bind
      apply Prog.Uses.bind
      · apply h.read_bind
        intro found
        cases found <;> trivial
      · exact fun _ => trivial
  | registerImage limits storage peer credentials uid imageUid payload =>
      exact hdone (uses_registerImage h.toAdmits cfg limits storage peer credentials uid imageUid
        payload hw)
  | updateImage credentials uid imageUid data =>
      exact hdone (uses_updateImage h.toAdmits cfg credentials uid imageUid data hw)
  | deleteImage credentials uid imageUid =>
      exact uses_deleteImage h.toAdmits cfg credentials uid imageUid hw
  | createReview peer credentials reviewUid spotUid rating content =>
      exact hdone (uses_createReview h.toAdmits cfg peer credentials reviewUid spotUid rating
        content hw.1 hw.2)
  | updateReview credentials spotUid reviewUid data =>
      exact hdone (uses_updateReview h.toAdmits cfg credentials spotUid reviewUid data hw.1 hw.2)
  | deleteReview credentials spotUid reviewUid =>
      exact uses_deleteReview h.toAdmits cfg credentials spotUid reviewUid hw.1 hw.2
  | deleteOption credentials field code =>
      exact uses_deleteOption h.toAdmits credentials field code hw.1 hw.2
  | decay thresholdDays => exact hdone (uses_decay h.toAdmits cfg thresholdDays hw.1 hw.2)
  | workerCycle newUid => exact hdone (uses_workerCycle h cfg newUid hw)

/-- A call issues what its writing statements allow. -/
theorem uses_program (h : AdmitsNested ok) (cfg : Settings) (call : SpotCall)
    (hw : call.Writes ok be now) : (call.program cfg be now).Uses ok := by
  have hbody := uses_body h cfg call hw
  cases call with
  | workerCycle newUid => exact hbody
  | _ => exact h.session hbody

end SpotCall

end Vivac
