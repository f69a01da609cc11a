import Vivac.Crud.Spot
import Vivac.Workers.BulkRows

/-!
# Bulk upsert of business info

`workers/spot_business_info_bulk.py`. External ids are resolved to spots once, before the
rows; a row whose external id names no spot or several fails.
-/

set_option autoImplicit false

namespace Vivac

open Lib App

namespace SpotBusinessInfo

/-- The row already has the value of the pair. -/
def has (r : SpotBusinessInfo) (a : InfoAttr) : Bool := a.set r == r

end SpotBusinessInfo

/-- The spots that have one of the external ids, by external id. -/
def externalIdMapping (externalIds : List String) (d : Db) : List (String × String) :=
  d.spots.rows.filterMap fun s =>
    match s.externalId with
    | some e => if e ∈ externalIds then some (e, s.uid) else none
    | none => none

/-- `mapping.get(external_id, [])`. -/
def mappedUids (mapping : List (String × String)) (externalId : String) : List String :=
  (mapping.filter fun p => p.1 == externalId).map Prod.snd

section Statements

variable (be : Backend) (now : Timestamp)

/-- Set pairs in the business info, and `updated_at`. -/
def setInfo (fields : List InfoAttr) : Rewrite SpotBusinessInfo.uid :=
  .total (fun r => { InfoAttr.setAll fields r with updatedAt := some now })
    fun r => InfoAttr.uid_setAll fields r

/-- Replace the business info `uid` by its new version. -/
def rewriteInfo (uid : String) (f : Rewrite SpotBusinessInfo.uid) (d : Db) : Db :=
  { d with businessInfo := d.businessInfo.rewrite (fun r => r.uid == uid) f }

/-- `UPDATE spot_business_info SET .. WHERE uid = ..`; answers whether a row matched. -/
def updateInfoRow (uid : String) (fields : List InfoAttr) : Statement Bool :=
  fun _ d =>
    match d.businessInfo.find? uid with
    | none => .ok ⟨false, id, [], []⟩
    | some r =>
      match be.refusesBusinessInfo (InfoAttr.setAll fields r) with
      | some reason => .error (.database "DBAPIError" reason)
      | none =>
          .ok ⟨true, rewriteInfo uid (setInfo now fields), [.businessInfo uid], [.businessInfo uid]⟩

/-- Append business info. -/
def insertInfo (r : SpotBusinessInfo) (d : Db) : Db :=
  { d with businessInfo := d.businessInfo.insert r }

/-- `INSERT INTO spot_business_info`. -/
def insertInfoRow (r : SpotBusinessInfo) : Statement Unit :=
  fun _ d =>
    match be.refusesBusinessInfo r with
    | some reason => .error (.database "DBAPIError" reason)
    | none =>
      if (d.businessInfo.find? r.uid).isSome then
        .error (integrityError "spot_business_info_pkey")
      else if d.businessInfo.any fun r' => r'.spotUid == r.spotUid then
        .error (integrityError "spot_business_info_spot_uid_key")
      else if (d.spots.find? r.spotUid).isNone then .error (integrityError "foreign key constraint")
      else .ok ⟨(), insertInfo r, [.businessInfo r.uid, .businessInfoOf r.spotUid],
        [.businessInfo r.uid]⟩

end Statements

section

variable (be : Backend) (now : Timestamp) (newUid : ℕ → String)

/-- `_build_external_id_mapping`. -/
def buildExternalIdMapping (externalIds : List String) : App (List (String × String)) :=
  if externalIds.isEmpty then .ret [] else select (externalIdMapping externalIds)

/-- `_upsert_business_info_row`: the pairs that differ from the spot's business info are
written, or a row is added under `uid`. -/
def upsertBusinessInfoRow (uid spotUid : String) (fields : List InfoAttr) : App Unit := do
  let found ← select fun d => d.businessInfo.select fun r => r.spotUid == spotUid
  match ← Prog.ofExcept (scalarOneOrNone found) with
  | some existing =>
    let changed := fields.filter fun a => !existing.has a
    if changed.isEmpty then .ret ()
    else do
      let matched ← execute (updateInfoRow be now existing.uid changed)
      if matched then .ret () else .raise staleDataError
  | none =>
    execute (insertInfoRow be (InfoAttr.setAll fields
      { uid := uid, spotUid := spotUid, createdAt := some now, updatedAt := some now }))

/-- The one spot an external id names. -/
def resolveExternalId (mapping : List (String × String)) (externalId : String) :
    Except Exc String :=
  match mappedUids mapping externalId with
  | [] => .error (.value
      ("spot_external_id " ++ Py.repr be.isPrintable externalId ++ " not found"))
  | [uid] => .ok uid
  | _ => .error (.value
      ("spot_external_id " ++ Py.repr be.isPrintable externalId ++ " is ambiguous"))

/-- What the loop does with one row. -/
def upsertMappedRow (mapping : List (String × String)) (index : ℕ)
    (row : SpotBusinessInfoBulkRow) : App Unit := do
  let spotUid ← Prog.ofExcept (resolveExternalId be mapping row.spotExternalId)
  upsertBusinessInfoRow be now (newUid index) spotUid row.fields

/-- `spot_business_info_bulk_upsert_handler`. -/
def spotBusinessInfoBulkUpsertHandler (request : SpotBusinessInfoBulkRequest) :
    App BulkResult := do
  let mapping ← buildExternalIdMapping (request.rows.map SpotBusinessInfoBulkRow.spotExternalId)
  bulkUpsert (upsertMappedRow be now newUid mapping) request.dryRun request.rows fun _ => .ret ()

end

end Vivac
