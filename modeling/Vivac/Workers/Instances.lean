import Vivac.Lib.Processes
import Vivac.Workers.JobWorker

/-!
# Instances

What the processes that touch `jobs` do, phase by phase: an instance cleans up orphans at its
start and then runs `job_worker_loop`, cycle after cycle; a request enqueues one job. A cycle
has two sessions, so a process can stop between the claim of a job and its processing.

The handler of a job is called in the phase `process` and nowhere else, once a phase.
-/

set_option autoImplicit false

namespace Vivac

open Lib App

/-- The phases of the processes. -/
inductive Phase where
  | boot
  | claim
  | process (jobUid : String)
  | enqueue (jobUid : String) (payload : JobPayload) (staffUid : String)
  | done

namespace Phase

/-- A process starts as an instance or as a request that enqueues. -/
def IsEntry : Phase → Prop
  | .boot => True
  | .enqueue _ _ _ => True
  | _ => False

/-- The job whose handler the phase runs. -/
def processed? : Phase → Option String
  | .process uid => some uid
  | _ => none

end Phase

/-- `async with session_factory() as session: p` in a process that opens one session after
another: the connection comes from the pool with no transaction on it. -/
def pooledSession {α : Type} (p : App α) : App α :=
  (Prog.perform .rollback : App Unit).bind fun _ => withSession p

/-- The next phase of the worker loop: an `Exception` ends the cycle and not the loop, and a
cancellation ends both. -/
def nextCycle {α : Type} (next : α → Phase) (r : Except Exc α) : App Phase :=
  match r with
  | .ok a => .ret (next a)
  | .error e => if e.isException then .ret .claim else .raise e

/-- Without a job the loop sleeps and claims again. -/
def afterClaim : Option Job → Phase
  | some job => .process job.uid
  | none => .claim

section

variable (cfg : Settings) (be : Backend) (now : Timestamp) (newUid : ℕ → String)

/-- The program of a phase; an exception of the clean-up ends the process. -/
def phaseProgram : Phase → App Phase
  | .boot => (pooledSession (cleanupOrphanedJobs now)).bind fun _ => .ret .claim
  | .claim => (pooledSession (claimNextJob now)).attempt.bind (nextCycle afterClaim)
  | .process uid =>
    (pooledSession (processClaimed cfg be now newUid uid)).attempt.bind
      (nextCycle fun _ => .claim)
  | .enqueue uid payload staffUid =>
    (pooledSession (enqueueJob now uid payload staffUid)).bind fun _ => .ret .done
  | .done => .ret .done

end

end Vivac
