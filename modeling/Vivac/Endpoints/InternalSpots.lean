import Vivac.Crud.SpotFieldOption
import Vivac.Endpoints.Auth
import Vivac.Workers.JobWorker

/-!
# The internal spot endpoints

The writing endpoints of `internal_spots.py`, `internal_spot_options.py` and the bulk upsert of
`internal_spot_business_info.py`. The routers ask for a staff user; some endpoints ask for a
role beside it.
-/

set_option autoImplicit false

namespace Vivac

open Lib App

/-- `ALLOWED_PIPELINE_TRANSITIONS`. -/
def allowedPipelineTransitions : List (PipelineStatus × PipelineStatus) :=
  [(.enriched, .curated), (.enriched, .rejected)]

namespace SpotAttr

/-- `SpotUpdate` has the field. -/
def isEditable : SpotAttr → Bool
  | .assignedToUid _ => false
  | _ => true

/-- The value, if the key is `pipeline_status`. -/
def pipelineStatus? : SpotAttr → Option (Option PipelineStatus)
  | .pipelineStatus v => some v
  | _ => none

end SpotAttr

/-- `SpotUpdate.model_dump(exclude_unset=True)`: each key once. -/
structure SpotUpdate where
  data : List SpotAttr
  nodup : (data.map SpotAttr.column).Nodup
  editable : ∀ a ∈ data, a.isEditable = true

/-- `data["pipeline_status"]`, if the key is there. -/
def SpotUpdate.pipelineStatus? (payload : SpotUpdate) : Option (Option PipelineStatus) :=
  payload.data.findSome? SpotAttr.pipelineStatus?

def spotNotFound : Exc := .app .spotNotFound "Spot not found"

namespace InternalSpots

/-- `require_staff`, and `require_role` beside it. -/
def requireStaffRole (minRole : StaffRole) (credentials : Credentials) : App User := do
  let staff ← requireStaff credentials
  requireRole minRole staff
  return staff

/-- The user who is to get spots has to be a staff user. -/
def checkAssignee (userUid : String) : App Unit := do
  match ← getUserById userUid with
  | some target =>
    if target.isStaff then .ret () else .raise (.app .userNotFound "Staff user not found")
  | none => .raise (.app .userNotFound "Staff user not found")

/-- Nobody, or a staff user. -/
def checkNewAssignee : Option String → App Unit
  | some userUid => checkAssignee userUid
  | none => .ret ()

/-- The spot, whatever its status. -/
def findSpot (cfg : Settings) (uid : String) : App Spot := do
  match ← getSpotByUid cfg uid with
  | some spot => return spot
  | none => .raise spotNotFound

/-- Why a staff user may not update a spot as the payload says. -/
def refusesUpdate (staff : User) (current : Spot) (payload : SpotUpdate) : Option Exc :=
  let isSuperuser := staff.staffRole == .superuser
  if !isSuperuser && current.pipelineStatus == .enriched &&
      current.assignedToUid != some staff.uid then
    some (.app .forbidden "본인에게 할당된 검증 대기 항목만 수정할 수 있습니다.")
  else
    match payload.pipelineStatus? with
    | none => none
    | some status =>
      if !isSuperuser && !allowedPipelineTransitions.any fun t =>
          t.1 == current.pipelineStatus && some t.2 == status then
        some (.app .forbidden ("허용되지 않는 상태 전이입니다: " ++ current.pipelineStatus.value ++
          " -> " ++ (status.map PipelineStatus.value).getD "None" ++ " (SUPERUSER 권한이 필요합니다)"))
      else none

section

variable (cfg : Settings) (be : Backend) (now : Timestamp)

/-- `enqueue_spots_bulk_upsert`; `jobUid` is the fresh uid of the job. -/
def enqueueSpotsBulkUpsert (credentials : Credentials) (jobUid : String)
    (request : SpotBulkRequest) : App String := do
  let staff ← requireStaffRole .superuser credentials
  enqueueJob now jobUid (.spots request) staff.uid

/-- `enqueue_spot_business_info_bulk_upsert`. -/
def enqueueSpotBusinessInfoBulkUpsert (credentials : Credentials) (jobUid : String)
    (request : SpotBusinessInfoBulkRequest) : App String := do
  let staff ← requireStaff credentials
  enqueueJob now jobUid (.businessInfo request) staff.uid

/-- `assign_spots`. -/
def assignSpots (credentials : Credentials) (userUid : String) (count : ℕ) : App ℕ := do
  let staff ← requireStaffRole .manager credentials
  checkAssignee userUid
  setAuditUser staff.uid
  Vivac.assignSpots be now userUid count

/-- `bulk_assign_spots`. -/
def bulkAssignSpots (credentials : Credentials) (spotUids : List String) (userUid : String) :
    App ℕ := do
  let staff ← requireStaffRole .manager credentials
  checkAssignee userUid
  setAuditUser staff.uid
  assignSpotsBulk be now spotUids userUid

/-- `transfer_spot_assignments`. -/
def transferSpotAssignments (credentials : Credentials) (fromUserUid toUserUid : String)
    (count : ℕ) : App ℕ := do
  let staff ← requireStaffRole .manager credentials
  checkAssignee toUserUid
  setAuditUser staff.uid
  Vivac.transferSpotAssignments be now fromUserUid toUserUid count

/-- `bulk_update_pipeline_status`; answers the uids that were there and those that were not. -/
def bulkUpdatePipelineStatus (credentials : Credentials) (uids : List String)
    (status : PipelineStatus) : App (List String × List String) := do
  let staff ← requireStaffRole .superuser credentials
  setAuditUser staff.uid
  let succeeded ← updatePipelineStatusBulk cfg be now uids status
  return (succeeded, uids.filter fun uid => !succeeded.contains uid)

/-- The update of a spot that the request has loaded before. -/
def updateLoaded (current : Spot) (uid : String) (staff : User) (data : List SpotAttr) :
    App Spot := do
  setAuditUser staff.uid
  match ← updateSpot cfg be now (some current) uid data with
  | some spot => return spot
  | none => .raise spotNotFound

/-- `reassign_spot`; no user takes the spot back from its staff user. -/
def reassignSpot (credentials : Credentials) (uid : String) (userUid : Option String) :
    App Spot := do
  let staff ← requireStaffRole .manager credentials
  let current ← findSpot cfg uid
  checkNewAssignee userUid
  updateLoaded cfg be now current uid staff [.assignedToUid userUid]

/-- `update_spot`. -/
def updateSpot (credentials : Credentials) (uid : String) (payload : SpotUpdate) : App Spot := do
  let staff ← requireStaff credentials
  let current ← findSpot cfg uid
  match refusesUpdate staff current payload with
  | some e => .raise e
  | none => updateLoaded cfg be now current uid staff payload.data

/-- `delete_spot`. -/
def deleteSpot (credentials : Credentials) (uid : String) : App Unit := do
  let staff ← requireStaffRole .manager credentials
  let spot ← findSpot cfg uid
  setAuditUser staff.uid
  Vivac.deleteSpot cfg be now spot

/-- `restore_spot`. -/
def restoreSpot (credentials : Credentials) (uid : String) : App Spot := do
  let staff ← requireStaffRole .manager credentials
  let spot ← findSpot cfg uid
  setAuditUser staff.uid
  Vivac.restoreSpot cfg be now spot

/-- `delete_spot_option`. -/
def deleteSpotOption (credentials : Credentials) (field : SpotOptionField) (code : String) :
    App Unit := do
  let _ ← requireStaffRole .manager credentials
  let deleted ← deleteFieldOption be now field code
  whenever (!deleted) (.raise (.app .spotOptionNotFound
    ("항목을 찾을 수 없습니다: " ++ field.value ++ "/" ++ code)))

end

end InternalSpots

end Vivac
