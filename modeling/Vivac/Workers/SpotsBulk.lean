import Vivac.Crud.Spot
import Vivac.Workers.BulkRows

/-!
# Bulk upsert of spots

`workers/spots_bulk.py`. A row with both parts of the upsert key updates the spot that
has the key; every other row is inserted. `newUid` gives the fresh uid of each row.
-/

set_option autoImplicit false

namespace Vivac

open Lib App

namespace SpotBulkRow

/-- `row.model_dump(exclude_none=True)`, as far as it names columns to set. -/
def values (row : SpotBulkRow) : List SpotAttr :=
  .title (some row.title) :: row.fields.filter fun a => !a.isNull

/-- The columns of the statement's `SET`. -/
def columns (row : SpotBulkRow) : List String :=
  row.values.map SpotAttr.column ++ ["rating_avg", "review_count"]

/-- Set the values in a spot. The statement has no `updated_at`. -/
def setValues (row : SpotBulkRow) : Rewrite Spot.uid where
  apply s := (SpotAttr.setAll row.values s).map fun s =>
    { s with ratingAvg := row.ratingAvg, reviewCount := row.reviewCount }
  keeps h := by
    obtain ⟨t, ht, rfl⟩ := Option.map_eq_some_iff.1 h
    have huid : t.uid = _ := SpotAttr.uid_of_setAll ht
    exact huid

/-- The spot an `INSERT` of the row starts from. -/
def blank (now : Timestamp) (uid : String) (row : SpotBulkRow) : Spot where
  uid := uid
  source := row.source
  externalId := row.externalId
  title := row.title
  createdAt := some now
  updatedAt := some now

/-- The spot that has the row's upsert key; a key with a null conflicts with nothing. -/
def conflicting (row : SpotBulkRow) (d : Db) : Option Spot :=
  match row.source, row.externalId with
  | some s, some e => d.spots.rows.find? fun r => r.source == some s && r.externalId == some e
  | _, _ => none

/-- The entry of the unique index a new spot of the row takes. -/
def sourceLock (row : SpotBulkRow) : List RowKey :=
  match row.source, row.externalId with
  | some s, some e => [.spotSource s e]
  | _, _ => []

end SpotBulkRow

section

variable (cfg : Settings) (be : Backend) (now : Timestamp)

/-- Append a spot. -/
def insertSpot (s : Spot) (d : Db) : Db := { d with spots := d.spots.insert s }

/-- `INSERT INTO spots .. ON CONFLICT (source, external_id) DO UPDATE .. RETURNING uid`.
The proposed row has to pass the checks even when it is not inserted. There is always a
column to update, the title, so the source's `DO NOTHING` does not occur. -/
def insertOnConflict (uid : String) (row : SpotBulkRow) : Statement (List String) :=
  fun locked d =>
    match row.setValues.apply (row.blank now uid) with
    | none => .error (integrityError "null value violates not-null constraint")
    | some proposed =>
      match refusesSpotRow be proposed with
      | some e => .error e
      | none =>
        match row.conflicting d with
        | some s =>
          updateSpots be (fun r => r.uid == s.uid) row.setValues row.columns locked d
        | none =>
          if (d.spots.find? uid).isSome then .error (integrityError "spots_pkey")
          else .ok
            { result := [uid]
              write := insertSpot proposed
              locks := .spot uid :: row.sourceLock
              changes := [.spot uid row.columns] }

variable (newUid : ℕ → String)

/-- `_upsert_spot_row`. -/
def upsertSpotRow (index : ℕ) (row : SpotBulkRow) : App (Option String) := do
  let result ← execute (insertOnConflict be now (newUid index) row)
  return result.head?

/-- `spots_bulk_upsert_handler`. -/
def spotsBulkUpsertHandler (request : SpotBulkRequest) : App BulkResult :=
  bulkUpsert (upsertSpotRow be now newUid) request.dryRun request.rows fun uids =>
    invalidateSpots cfg (uids.filterMap id)

end

end Vivac
