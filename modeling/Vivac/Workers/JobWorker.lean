import Vivac.Workers.SpotBusinessInfoBulk
import Vivac.Workers.SpotsBulk

/-!
# The job worker

`workers/job_worker.py`: a job is claimed in one transaction and processed in another;
its outcome is written with the rows it applied, in the transaction that `finally`
commits.
-/

set_option autoImplicit false

namespace Vivac

open Lib App

/-! ## Job rows -/

/-- Replace the jobs of `uids` by their new version. -/
def rewriteJobs (uids : List String) (f : Rewrite Job.uid) (d : Db) : Db :=
  { d with jobs := d.jobs.rewrite (fun j => j.uid ∈ uids) f }

/-- `UPDATE jobs SET .. WHERE p RETURNING uid`. -/
def updateJobs (p : Job → Bool) (f : Rewrite Job.uid) : Statement (List String) :=
  fun _ d =>
    let uids := (d.jobs.select p).map Job.uid
    .ok ⟨uids, rewriteJobs uids f, uids.map RowKey.job, uids.map Change.job⟩

/-- The flush of a loaded job. -/
def flushJob (uid : String) (f : Rewrite Job.uid) : App Unit := do
  let uids ← execute (updateJobs (fun j => j.uid == uid) f)
  if uids.isEmpty then .raise staleDataError else .ret ()

/-- Lock a job the snapshot shows, unless another session holds it or it is pending no more;
answers its current version. -/
def lockPending (uid : String) : Statement (Option Job) :=
  fun locked d =>
    let job := (d.jobs.find? uid).filter fun j => j.status == .pending && !locked (.job uid)
    .ok ⟨job, id, (job.map fun _ => RowKey.job uid).toList, []⟩

/-- Lock the first of the jobs that is free and pending still. -/
def lockFirst : List String → App (Option Job)
  | [] => .ret none
  | uid :: uids => do
    match ← execute (lockPending uid) with
    | some job => return some job
    | none => lockFirst uids

/-- `SELECT .. WHERE status = 'pending' ORDER BY created_at LIMIT 1 FOR UPDATE SKIP LOCKED`: the
jobs of one snapshot, tried in order until one is locked. -/
def lockPendingJob : App (Option Job) := do
  let uids ← select fun d => ((d.jobs.select fun j => j.status == .pending).insertionSort
    fun a b => a.createdAt ≤ b.createdAt).map Job.uid
  lockFirst uids

/-- The job under a uid, which has to exist. -/
def reloadJob (uid : String) : App Job := do
  match ← select fun d => d.jobs.find? uid with
  | some job => return job
  | none => .raise (.database "NoResultFound" "No row was found when one was required")

/-- `session.refresh(job)`. -/
def refreshJob (uid : String) : App Job := do
  match ← select fun d => d.jobs.find? uid with
  | some job => return job
  | none => .raise (.database "InvalidRequestError" "Could not refresh instance")

/-- `INSERT INTO jobs`. -/
def insertJob (job : Job) : Statement Unit :=
  fun _ d =>
    if (d.jobs.find? job.uid).isSome then .error (integrityError "jobs_pkey")
    else if (d.users.find? job.createdBy).isNone then .error
      (integrityError "foreign key constraint")
    else .ok ⟨(), fun d => { d with jobs := d.jobs.insert job }, [.job job.uid], [.job job.uid]⟩

section Worker

variable (cfg : Settings) (be : Backend) (now : Timestamp) (newUid : ℕ → String)

/-- The text of a job that died with its process. -/
def orphaned : String := "orphaned"

/-- A job that has failed with its process. -/
def setOrphaned : Rewrite Job.uid :=
  .total (fun j => { j with
    status := .failed
    error := some orphaned
    finishedAt := some now }) fun _ => rfl

/-- `UPDATE jobs SET .. WHERE status = 'running'`. -/
def failOrphans : Statement (List String) :=
  fun _ d =>
    let uids := (d.jobs.select fun j => j.status == .running).map Job.uid
    .ok ⟨uids, rewriteJobs uids (setOrphaned now), uids.map RowKey.job, uids.map Change.orphan⟩

/-- Running jobs become failed ones. -/
def cleanupOrphanedJobs : App ℕ := do
  let uids ← execute (failOrphans now)
  commit
  return uids.length

/-- A job that runs. -/
def setRunning : Rewrite Job.uid :=
  .total (fun j => { j with
    status := .running
    startedAt := some now }) fun _ => rfl

/-- The flush of a claimed job. -/
def startJob (uid : String) : Statement (List String) :=
  fun _ d =>
    let uids := (d.jobs.select fun j => j.uid == uid).map Job.uid
    .ok ⟨uids, rewriteJobs uids (setRunning now), uids.map RowKey.job, uids.map Change.claim⟩

/-- The oldest pending job, now running. -/
def claimNextJob : App (Option Job) := do
  match ← lockPendingJob with
  | none => return none
  | some job => do
    let uids ← execute (startJob now job.uid)
    if uids.isEmpty then .raise staleDataError
    else do
      commit
      let fresh ← refreshJob job.uid
      return some fresh

/-- The body of the endpoints that enqueue: a pending job with the payload. -/
def enqueueJob (uid : String) (payload : JobPayload) (staffUid : String) : App String := do
  execute (insertJob { uid := uid, payload := payload, createdBy := staffUid, createdAt := now })
  commit
  let job ← refreshJob uid
  return job.uid

/-- `SELECT set_config('app.user_id', .., true)`, which no table shows. -/
def setAuditUser (_userUid : String) : App Unit := select fun _ => ()

/-- `db_dump_handler`, which does not use the session. -/
def dbDumpHandler : App JobResult := do
  let (s3Key, sizeBytes) ← Prog.ofExcept (be.dumpDatabase now)
  return .dump s3Key sizeBytes

/-- The handler that `HANDLERS` has for the job's type, on its payload. -/
def runHandler : JobPayload → App JobResult
  | .spots request => return .bulk (← spotsBulkUpsertHandler cfg be now newUid request)
  | .businessInfo request =>
      return .bulk (← spotBusinessInfoBulkUpsertHandler be now newUid request)
  | .dbDump => dbDumpHandler be now

/-- What `process_job` has set in the job when it commits. An exception that is not an
`Exception` leaves the status alone. -/
def recordOutcome (outcome : Except Exc JobResult) : Rewrite Job.uid :=
  .total (fun j =>
    match outcome with
    | .ok result => { j with
        status := .succeeded
        result := some result
        finishedAt := some now }
    | .error e =>
      if e.isException then { j with
        status := .failed
        error := some (sanitizeExcMessage e)
        finishedAt := some now }
      else { j with finishedAt := some now }) fun j => by
    cases outcome with
    | ok result => rfl
    | error e => by_cases h : e.isException <;> simp [h]

/-- Run the handler and record its outcome; the commit is in the `finally`. The log line of a
failure reads the uid of the job, which a registered handler leaves loaded. -/
def processJob (job : Job) : App Unit := do
  setAuditUser job.createdBy
  let outcome ← (runHandler cfg be now newUid job.payload).attempt
  flushJob job.uid (recordOutcome now outcome)
  commit
  match outcome with
  | .ok _ => .ret ()
  | .error e => if e.isException then .ret () else .raise e

/-- The second session of a cycle. -/
def processClaimed (uid : String) : App Unit := do
  let job ← reloadJob uid
  processJob cfg be now newUid job

/-- One cycle; answers whether there was a job. -/
def runWorkerCycle : App Bool := do
  match ← withSession (claimNextJob now) with
  | none => return false
  | some job => do
    withSession (processClaimed cfg be now newUid job.uid)
    return true

/-- What a starting process does first. -/
def startupOrphanCleanup : App ℕ := withSession (cleanupOrphanedJobs now)

end Worker

end Vivac
