import Vivac.Crud.SpotQueries

/-!
# Spot writes

The writing half of `crud/spot.py`. Every writer commits and then raises the list
version and the version of each spot it changed.
-/

set_option autoImplicit false

namespace Vivac

open Lib App

/-- A database refusal of a constraint. -/
def integrityError (message : String) : Exc := .database "IntegrityError" message

/-- A text that the database can store: it has no character U+0000. -/
def isStorable (text : String) : Bool := !text.toList.contains (Char.ofNat 0)

/-- The refusal of a text that cannot be stored. -/
def textNotStorable : Exc :=
  .database "DBAPIError" "invalid byte sequence for encoding \"UTF8\": 0x00"

/-- An ORM update that matched no row. -/
def staleDataError : Exc :=
  .database "StaleDataError"
    "UPDATE statement on table expected to update 1 row(s); 0 were matched."

section Statements

variable (be : Backend)

/-- Why the database refuses a spot row: a check constraint, or a reason of its own. -/
def refusesSpotRow (s : Spot) : Option Exc :=
  if s.checkTrustTier then (be.refusesSpot s).map (.database "DBAPIError")
  else some (integrityError "ck_spots_trust_tier")

/-- The first refusal of the new versions of `rows`; a row has no new version when a null
goes into a NOT NULL column. -/
def refusal (f : Rewrite Spot.uid) : List Spot → Option Exc
  | [] => none
  | s :: rows =>
    match f.apply s with
    | none => some (integrityError "null value violates not-null constraint")
    | some s' =>
      match refusesSpotRow be s' with
      | some e => some e
      | none => refusal f rows

/-- Replace each row of `uids` by its new version. -/
def rewriteSpots (uids : List String) (f : Rewrite Spot.uid) (d : Db) : Db :=
  { d with spots := d.spots.rewrite (fun s => s.uid ∈ uids) f }

/-- `UPDATE spots SET columns WHERE p RETURNING uid`. -/
def updateSpots (p : Spot → Bool) (f : Rewrite Spot.uid) (columns : List String) :
    Statement (List String) :=
  fun _ d =>
    let hit := d.spots.select p
    match refusal be f hit with
    | some e => .error e
    | none =>
      let uids := hit.map Spot.uid
      .ok
        { result := uids
          write := rewriteSpots uids f
          locks := uids.map RowKey.spot
          changes := uids.map fun u => Change.spot u columns }

/-- Lock a row the snapshot shows, unless another session holds it or its current version
no longer meets `p`; answers whether it is locked now. -/
def lockSpot (p : Spot → Bool) (uid : String) : Statement Bool :=
  fun locked d =>
    if !locked (.spot uid) && (d.spots.find? uid).any p then .ok ⟨true, id, [.spot uid], []⟩
    else .ok ⟨false, id, [], []⟩

/-- Lock up to `count` of the rows that meet `p`, in order. -/
def lockSpots (p : Spot → Bool) : ℕ → List String → App (List String)
  | 0, _ => .ret []
  | _, [] => .ret []
  | count + 1, uid :: uids => do
    if ← execute (lockSpot p uid) then
      return uid :: (← lockSpots p count uids)
    else lockSpots p (count + 1) uids

/-- `SELECT uid FROM spots WHERE p LIMIT count FOR UPDATE SKIP LOCKED`: the rows of one
snapshot, each locked in a step of its own. -/
def pickSpots (p : Spot → Bool) (count : ℕ) : App (List String) := do
  let uids ← select fun d => (d.spots.select p).map Spot.uid
  lockSpots p count uids

/-- `session.refresh(spot)`. -/
def refreshSpot (uid : String) : App Spot := do
  match ← select fun d => d.spots.find? uid with
  | some s => return s
  | none => .raise (.database "InvalidRequestError" "Could not refresh instance")

/-- The pairs of an update dictionary set in a row, and `updated_at`. -/
def setSpot (now : Timestamp) (data : List SpotAttr) : Rewrite Spot.uid where
  apply s := (SpotAttr.setAll data s).map fun s => { s with updatedAt := some now }
  keeps h := by
    obtain ⟨t, ht, rfl⟩ := Option.map_eq_some_iff.1 h
    have huid : t.uid = _ := SpotAttr.uid_of_setAll ht
    exact huid

/-- The flush of `setattr(spot, key, value)` for the pairs of `data`: the columns that
differ from the loaded spot are written, and `updated_at`; no difference, no statement. -/
def flushSpot (now : Timestamp) (loaded : Spot) (data : List SpotAttr) : App Unit :=
  let changed := data.filter fun a => !a.unchanged loaded
  if changed.isEmpty then .ret ()
  else do
    let uids ← execute (updateSpots be (fun s => s.uid == loaded.uid) (setSpot now changed)
      (changed.map SpotAttr.column))
    if uids.isEmpty then .raise staleDataError else .ret ()

end Statements

section Writers

variable (cfg : Settings) (be : Backend) (now : Timestamp)

/-- Raise the list version, then the detail version of each spot. -/
def invalidateSpots (uids : List String) : App Unit := do
  Cache.bumpSpotsVersion cfg
  forEach (Cache.invalidateSpotDetail cfg) uids

/-- Partial update. `identity` is the copy of the spot the session has already loaded;
the query does not refresh it. -/
def updateSpot (identity : Option Spot) (uid : String) (data : List SpotAttr) :
    App (Option Spot) := do
  match ← getSpotByUid cfg uid with
  | none => return none
  | some row => do
    flushSpot be now (identity.getD row) data
    commit
    let spot ← refreshSpot uid
    Cache.bumpSpotsVersion cfg
    Cache.invalidateSpotDetail cfg uid
    return some spot

/-- `UPDATE spots SET deleted_at = .. WHERE uid = ..`, as soft deletion and restoration write it. -/
def setDeletedAt (uid : String) (deletedAt : Option Timestamp) : Statement (List String) :=
  updateSpots be (fun s => s.uid == uid)
    (.total (fun s => { s with deletedAt := deletedAt, updatedAt := some now }) fun _ => rfl)
    ["deleted_at"]

/-- Soft deletion. -/
def deleteSpot (spot : Spot) : App Unit := do
  let _ ← execute (setDeletedAt be now spot.uid (some now))
  commit
  Cache.bumpSpotsVersion cfg
  Cache.invalidateSpotDetail cfg spot.uid

/-- Undo a soft deletion. -/
def restoreSpot (spot : Spot) : App Spot := do
  let _ ← execute (setDeletedAt be now spot.uid none)
  commit
  let fresh ← refreshSpot spot.uid
  Cache.bumpSpotsVersion cfg
  Cache.invalidateSpotDetail cfg spot.uid
  return fresh

/-- Free transition of many spots; answers the uids that exist. -/
def updatePipelineStatusBulk (uids : List String) (status : PipelineStatus) :
    App (List String) := do
  let found ← select fun d => (d.spots.select fun s => s.uid ∈ uids).map Spot.uid
  if found.isEmpty then
    return []
  else do
    let _ ← execute (updateSpots be (fun s => s.uid ∈ found)
      (.total (fun s => { s with pipelineStatus := status, updatedAt := some now }) fun _ => rfl)
      ["pipeline_status"])
    commit
    invalidateSpots cfg found
    return found

/-- Published, not deleted, with a tier, and not verified since the cutoff. -/
def isStale (cutoff : Timestamp) (s : Spot) : Bool :=
  s.live && s.trustTier.isSome &&
    match s.lastVerifiedAt with
    | none => true
    | some t => t < cutoff

/-- Days in microseconds. -/
def daysMicros (days : ℤ) : ℤ := days * 86400000000

/-- Lower the tier of stale spots by one step; a stale spot of the lowest tier goes back
to the verification queue. Answers the numbers of both. -/
def decayStaleTrustTiers (thresholdDays : ℤ := 180) : App (ℕ × ℕ) := do
  let cutoff := now - daysMicros thresholdDays
  let downgraded ← execute (updateSpots be
    (fun s => isStale cutoff s && s.trustTier.any fun t => t < 3)
    (.total (fun s => { s with
      trustTier := s.trustTier.map (· + 1)
      lastVerifiedAt := some now
      updatedAt := some now }) fun _ => rfl)
    ["trust_tier", "last_verified_at"])
  let requeued ← execute (updateSpots be
    (fun s => isStale cutoff s && s.trustTier == some 3)
    (.total (fun s => { s with
      assignedToUid := none
      lastVerifiedAt := some now
      updatedAt := some now }) fun _ => rfl)
    ["assigned_to_uid", "last_verified_at"])
  commit
  if downgraded.isEmpty then
    return (0, requeued.length)
  else do
    invalidateSpots cfg downgraded
    return (downgraded.length, requeued.length)

/-! ## Assignments -/

/-- `UPDATE spots SET assigned_to_uid = .. WHERE uid IN uids`. -/
def setAssigned (uids : List String) (userUid : String) : Statement (List String) :=
  updateSpots be (fun s => s.uid ∈ uids)
    (.total (fun s => { s with assignedToUid := some userUid, updatedAt := some now }) fun _ => rfl)
    ["assigned_to_uid"]

/-- Assign up to `count` of the spots that meet `p`, skipping those others hold. -/
def assignPicked (p : Spot → Bool) (userUid : String) (count : ℕ) : App ℕ := do
  let uids ← pickSpots p count
  if uids.isEmpty then
    return 0
  else do
    let _ ← execute (setAssigned be now uids userUid)
    commit
    return uids.length

/-- Assign up to `count` unassigned ENRICHED spots. -/
def assignSpots (userUid : String) (count : ℕ) : App ℕ :=
  assignPicked be now
    (fun s => s.pipelineStatus == .enriched && s.assignedToUid.isNone) userUid count

/-- Assign the given spots, whoever has them. -/
def assignSpotsBulk (spotUids : List String) (userUid : String) : App ℕ := do
  let uids ← execute (setAssigned be now spotUids userUid)
  commit
  return uids.length

/-- Move up to `count` ENRICHED spots from one user to another. -/
def transferSpotAssignments (fromUserUid toUserUid : String) (count : ℕ) : App ℕ :=
  assignPicked be now
    (fun s => s.pipelineStatus == .enriched && s.assignedToUid == some fromUserUid) toUserUid count

end Writers

end Vivac
