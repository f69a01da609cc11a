import Vivac.Jobs.RecordedOutcome
import Vivac.Pipeline.TimedCalls

/-!
# Jobs one after another

The worker processes a claimed job in a session of its own, to its end. What it leaves of the spots
and the business info depends on the payload and on the tables alone (`JobRun.Processed.same_rows`),
and the job says whether the rows stayed (`JobRun.Processed.kept_iff`).
-/

set_option autoImplicit false

namespace Vivac

open Lib App

/-- What a job leaves of the tables, as far as its payload writes them. -/
def payloadTables (be : Backend) (now : Timestamp) (newUid : ℕ → String) (payload : JobPayload)
    (d : Db) : Db :=
  match payload with
  | .spots request => bulkTables (spotRow be now newUid) request.dryRun request.rows d
  | .businessInfo request => bulkTables (infoRow be now newUid) request.dryRun request.rows d
  | .dbDump => d

/-- The processing of a job: when, with which uids for new rows, and of which job. -/
structure JobRun where
  now : Timestamp
  newUid : ℕ → String
  uid : String

/-- The worker processes the job to its end. -/
def JobRun.Processed (cfg : Settings) (be : Backend) (x : JobRun) (s s' : State Unit) : Prop :=
  ∃ r, runAlone (fun i => exec i) () (withSession (processClaimed cfg be x.now x.newUid x.uid)) s =
    some (r, s')

section Rows

variable {be : Backend} {now : Timestamp} {newUid : ℕ → String}

/-- Rows that leave the jobs alone, in order. -/
theorem RowStep.jobs_tablesAfter {ρ β : Type} {step : RowStep ρ β}
    (hstep : ∀ {index row d b d'}, step index row d = .ok (b, d') → d'.jobs = d.jobs) (index : ℕ)
    (rows : List ρ) (d : Db) : (step.tablesAfter index rows d).jobs = d.jobs := by
  induction rows generalizing index d with
  | nil => rfl
  | cons row rows ih =>
      cases hrow : step index row d with
      | error e =>
          simp only [RowStep.tablesAfter, hrow]
          exact ih _ _
      | ok out =>
          simp only [RowStep.tablesAfter, hrow]
          rw [ih]
          exact hstep hrow

theorem jobs_spotRow {index : ℕ} {row : SpotBulkRow} {d d' : Db} {uid? : Option String}
    (h : spotRow be now newUid index row d = .ok (uid?, d')) : d'.jobs = d.jobs := by
  unfold spotRow at h
  cases hst : (insertOnConflict be now (newUid index) row).apply d with
  | error e =>
      rw [hst] at h
      cases h
  | ok out =>
      rw [hst] at h
      cases h
      obtain ⟨eff, heff, -, hwrite⟩ := Stmt.ok_of_apply (show _ = Except.ok (out.1, out.2) from hst)
      rw [← hwrite]
      simp only [insertOnConflict] at heff
      split at heff
      · cases heff
      · split at heff
        · cases heff
        · split at heff
          · rw [updateSpots_eq_ok heff]
            rfl
          · split at heff
            · cases heff
            · cases heff
              rfl

theorem jobs_writeInfo {uid spotUid : String} {fields : List InfoAttr} {d d' : Db}
    (h : writeInfo be now uid spotUid fields d = .ok ((), d')) : d'.jobs = d.jobs := by
  unfold writeInfo at h
  cases hfound : scalarOneOrNone (d.businessInfo.select fun r => r.spotUid == spotUid) with
  | error e =>
      rw [hfound] at h
      cases h
  | ok found =>
      rw [hfound] at h
      cases found with
      | none =>
          obtain ⟨eff, heff, -, rfl⟩ := Stmt.ok_of_apply h
          simp only [insertInfoRow] at heff
          split at heff
          · cases heff
          · split at heff
            · cases heff
            · split at heff
              · cases heff
              · split at heff
                · cases heff
                · cases heff
                  rfl
      | some existing =>
          simp only [Except.bind] at h
          split at h
          · cases h
            rfl
          · cases hst : (updateInfoRow be now existing.uid
                (fields.filter fun a => !existing.has a)).apply d with
            | error e =>
                rw [hst] at h
                cases h
            | ok out =>
                rw [hst] at h
                cases h
                obtain ⟨eff, heff, -, hwrite⟩ :=
                    Stmt.ok_of_apply (show _ = Except.ok (out.1, out.2) from hst)
                rw [← hwrite]
                simp only [updateInfoRow] at heff
                split at heff
                · cases heff
                  rfl
                · split at heff
                  · cases heff
                  · cases heff
                    rfl

theorem jobs_infoRow {index : ℕ} {row : SpotBusinessInfoBulkRow} {d d' : Db} {u : Unit}
    (h : infoRow be now newUid index row d = .ok (u, d')) : d'.jobs = d.jobs := by
  unfold infoRow at h
  cases hspot : resolveExternalId be (externalIdMapping [row.spotExternalId] d)
      row.spotExternalId with
  | error e =>
      rw [hspot] at h
      cases h
  | ok spotUid =>
      rw [hspot] at h
      exact jobs_writeInfo h

theorem jobs_payloadTables (payload : JobPayload) (d : Db) :
    (payloadTables be now newUid payload d).jobs = d.jobs := by
  cases payload with
  | spots request =>
      unfold payloadTables bulkTables
      dsimp only
      split
      · exact RowStep.jobs_tablesAfter jobs_spotRow 0 request.rows d
      · rfl
  | businessInfo request =>
      unfold payloadTables bulkTables
      dsimp only
      split
      · exact RowStep.jobs_tablesAfter jobs_infoRow 0 request.rows d
      · rfl
  | dbDump => rfl

end Rows

/-! ## One job -/

section Runs

variable {ι : Type} [DecidableEq ι] {i : ι} {cfg : Settings} {be : Backend} {now : Timestamp}
  {newUid : ℕ → String}

/-- What the handler of a payload answers. -/
def HandlerAnswers (be : Backend) (now : Timestamp) (newUid : ℕ → String) (payload : JobPayload)
    (d : Db) (outcome : Except Exc JobResult) : Prop :=
  match payload with
  | .spots request => outcome =
      .ok (.bulk (bulkResult (spotRow be now newUid) request.dryRun request.rows d))
  | .businessInfo request => outcome =
      .ok (.bulk (bulkResult (infoRow be now newUid) request.dryRun request.rows d))
  | .dbDump => ∀ result, outcome ≠ .ok (.bulk result)

theorem lone_runHandler (payload : JobPayload) (db d : Db) :
    Lone i (Sees i db [] d) (runHandler cfg be now newUid payload) fun r s =>
      HandlerAnswers be now newUid payload d r ∧
        Sees i db [] (payloadTables be now newUid payload d) s := by
  cases payload with
  | spots request =>
      apply Lone.bind_ok (lone_spotsBulkUpsertHandler cfg request db [] d)
      exact Lone.ret _ fun s hs => ⟨rfl, hs⟩
  | businessInfo request =>
      apply Lone.bind_ok (lone_spotBusinessInfoBulkUpsertHandler request db [] d)
      exact Lone.ret _ fun s hs => ⟨rfl, hs⟩
  | dbDump =>
      cases h : be.dumpDatabase now with
      | ok dump =>
          have hrun : runHandler cfg be now newUid .dbDump = .ret (.dump dump.1 dump.2) := by
            simp [runHandler, dbDumpHandler, h, Prog.ofExcept]
          rw [hrun]
          exact Lone.ret _ fun s hs => ⟨fun _ h => (by cases h), hs⟩
      | error e =>
          have hrun : runHandler cfg be now newUid .dbDump = .raise e := by
            simp [runHandler, dbDumpHandler, h, Prog.ofExcept]
          rw [hrun]
          exact Lone.raise e fun s hs => ⟨fun _ h => (by cases h), hs⟩

/-- What a processed job leaves: its tables, and its outcome in the job's row. -/
def ProcessedLeaves (be : Backend) (now : Timestamp) (newUid : ℕ → String) (job : Job) (db d : Db) :
    Prop :=
  ∃ outcome, HandlerAnswers be now newUid job.payload db outcome ∧
    d = rewriteJobs [job.uid] (recordOutcome now outcome)
      (payloadTables be now newUid job.payload db)

theorem lone_processJob {job : Job} {db : Db} (hjob : db.jobs.find? job.uid = some job) :
    Lone i (Sees i db [] db) (processJob cfg be now newUid job)
      fun _ s => ProcessedLeaves be now newUid job db s.db := by
  apply Lone.bind_ok (Lone.read fun _ => ())
  apply Lone.bind (fun r s => ∃ outcome, r = .ok outcome ∧
      HandlerAnswers be now newUid job.payload db outcome ∧
      Sees i db [] (payloadTables be now newUid job.payload db) s)
  · exact Lone.attempt (lone_runHandler job.payload db db) fun r s h => ⟨r, rfl, h⟩
  · intro outcome
    -- the job is there to be flushed
    have huids : ((payloadTables be now newUid job.payload db).jobs.select
        fun j => j.uid == job.uid).map Job.uid = [job.uid] := by
      rw [jobs_payloadTables, Table.select_eq_find? (k := job.uid) (fun r => beq_iff_eq), hjob]
      rfl
    have hflush : Lone i (Sees i db [] (payloadTables be now newUid job.payload db))
        (flushJob job.uid (recordOutcome now outcome)) fun r s => r = .ok () ∧
          Sees i db [] (rewriteJobs [job.uid] (recordOutcome now outcome)
            (payloadTables be now newUid job.payload db)) s := by
      apply Lone.statement_bind
      · intro uids d' hst
        obtain ⟨eff, heff, hresult, hwrite⟩ := Stmt.ok_of_apply hst
        simp only [updateJobs, huids] at heff
        cases heff
        cases hresult
        cases hwrite
        exact Lone.ret () fun s hs => ⟨rfl, hs⟩
      · intro e hst
        cases Stmt.error_of_apply hst
    rintro s ⟨outcome', heq, hanswers, hs⟩
    cases heq
    have hleaves : ∀ {s : State ι}, s.db = rewriteJobs [job.uid] (recordOutcome now outcome)
        (payloadTables be now newUid job.payload db) → ProcessedLeaves be now newUid job db s.db :=
      fun hdb => ⟨outcome, hanswers, hdb⟩
    refine (?_ : Lone i (Sees i db [] (payloadTables be now newUid job.payload db)) _
      fun _ s => ProcessedLeaves be now newUid job db s.db) s hs
    apply Lone.bind_ok hflush
    apply Lone.bind_ok Lone.commit
    cases outcome with
    | ok result => exact Lone.ret () fun s hs => hleaves hs.holds.db_eq
    | error e =>
        dsimp only
        split
        · exact Lone.ret () fun s hs => hleaves hs.holds.db_eq
        · exact Lone.raise e fun s hs => hleaves hs.holds.db_eq
  · rintro e s ⟨outcome, heq, -⟩
    cases heq

theorem lone_processClaimed {uid : String} {job : Job} {db : Db}
    (hjob : db.jobs.find? uid = some job) :
    Lone i (Sees i db [] db) (processClaimed cfg be now newUid uid)
      fun _ s => ProcessedLeaves be now newUid job db s.db := by
  obtain rfl : job.uid = uid := (Table.find?_eq_some.1 hjob).2
  have hload : Lone i (Sees i db [] db) (reloadJob job.uid) fun r s =>
      r = .ok job ∧ Sees i db [] db s := by
    refine Lone.bind_ok (Lone.read fun d : Db => d.jobs.find? job.uid) ?_
    rw [hjob]
    exact Lone.ret job fun s hs => ⟨rfl, hs⟩
  exact Lone.bind_ok hload (lone_processJob hjob)

end Runs

/-- The job says that its rows were applied when they all went through, and not as a dry run. -/
theorem saysApplied_recorded {now : Timestamp} {uid : String} {old : Job} {d : Db}
    {result : BulkResult} (hold : d.jobs.find? uid = some old) :
    SaysApplied uid (rewriteJobs [uid] (recordOutcome now (.ok (.bulk result))) d) ↔
      result.failed = 0 ∧ result.dryRun = false := by
  have huid : old.uid = uid := (Table.find?_eq_some.1 hold).2
  have hnew : (rewriteJobs [uid] (recordOutcome now (.ok (.bulk result))) d).jobs.find? uid =
      some { old with
        status := .succeeded
        result := some (.bulk result)
        finishedAt := some now } := by
    rw [find?_rewriteJobs, hold, Option.map_some, if_pos (by simp [huid])]
    rfl
  constructor
  · rintro ⟨job, result', hjob, -, hresult, hfailed, hdry⟩
    rw [hnew] at hjob
    cases hjob
    cases hresult
    exact ⟨hfailed, hdry⟩
  · rintro ⟨hfailed, hdry⟩
    exact ⟨_, result, hnew, rfl, rfl, hfailed, hdry⟩

namespace JobRun

variable {cfg : Settings} {be : Backend} {x : JobRun} {s s' : State Unit}

theorem Processed.between (h : x.Processed cfg be s s') : Between s' := by
  obtain ⟨r, h⟩ := h
  exact between_of_withSession h

theorem Processed.leaves (h : x.Processed cfg be s s') (hs : Between s) {job : Job}
    (hjob : s.db.jobs.find? x.uid = some job) :
    ProcessedLeaves be x.now x.newUid job s.db s'.db := by
  obtain ⟨r, h⟩ := h
  obtain ⟨r', s'', hrun, -, hleaves⟩ := lone_withSession (lone_processClaimed hjob) s hs.sees
  have hsame : some (r', s'') = some (r, s') := hrun.symm.trans h
  cases hsame
  exact hleaves

/-- The job is still there afterwards, with the same payload. -/
theorem Processed.payload_eq (h : x.Processed cfg be s s') (hs : Between s) {job : Job}
    (hjob : s.db.jobs.find? x.uid = some job) :
    ∃ job', s'.db.jobs.find? x.uid = some job' ∧ job'.payload = job.payload := by
  obtain ⟨outcome, -, hdb⟩ := h.leaves hs hjob
  have huid : job.uid = x.uid := (Table.find?_eq_some.1 hjob).2
  have hthere : (payloadTables be x.now x.newUid job.payload s.db).jobs.find? x.uid = some job := by
    rw [jobs_payloadTables, hjob]
  rw [hdb, find?_rewriteJobs, hthere, Option.map_some]
  refine ⟨_, rfl, ?_⟩
  rw [if_pos (by simp [huid])]
  cases outcome with
  | ok result => rfl
  | error e =>
      simp only [recordOutcome, Rewrite.total, Option.getD_some]
      split <;> rfl

/-- The spots and the business info are those of the payload. -/
theorem Processed.same_rows (h : x.Processed cfg be s s') (hs : Between s) {job : Job}
    (hjob : s.db.jobs.find? x.uid = some job) :
    SameRows s'.db (payloadTables be x.now x.newUid job.payload s.db) := by
  obtain ⟨outcome, -, hdb⟩ := h.leaves hs hjob
  rw [hdb]
  exact ⟨rfl, rfl⟩

/-- The rows of a spots request are kept when all of them go through and it is no dry run, and
the job says so. -/
theorem Processed.spots_kept_iff (h : x.Processed cfg be s s') (hs : Between s) {job : Job}
    (hjob : s.db.jobs.find? x.uid = some job) {request : SpotBulkRequest}
    (hpayload : job.payload = .spots request) :
    SaysApplied x.uid s'.db ↔
      (spotRow be x.now x.newUid).failures 0 request.rows s.db = [] ∧ request.dryRun = false := by
  obtain ⟨outcome, hanswers, hdb⟩ := h.leaves hs hjob
  have huid : job.uid = x.uid := (Table.find?_eq_some.1 hjob).2
  rw [hpayload] at hanswers
  rw [hdb, huid, hanswers,
    saysApplied_recorded (show _ = some job by rw [jobs_payloadTables, hjob])]
  simp [bulkResult]

/-- The rows of a business info request, likewise. -/
theorem Processed.info_kept_iff (h : x.Processed cfg be s s') (hs : Between s) {job : Job}
    (hjob : s.db.jobs.find? x.uid = some job) {request : SpotBusinessInfoBulkRequest}
    (hpayload : job.payload = .businessInfo request) :
    SaysApplied x.uid s'.db ↔
      (infoRow be x.now x.newUid).failures 0 request.rows s.db = [] ∧ request.dryRun = false := by
  obtain ⟨outcome, hanswers, hdb⟩ := h.leaves hs hjob
  have huid : job.uid = x.uid := (Table.find?_eq_some.1 hjob).2
  rw [hpayload] at hanswers
  rw [hdb, huid, hanswers,
    saysApplied_recorded (show _ = some job by rw [jobs_payloadTables, hjob])]
  simp [bulkResult]

end JobRun

namespace Sample

/-- The processing of the sample's job. -/
def jobRun : JobRun := ⟨0, fun _ => "n", "j"⟩

/-- The state after it, from tables that have the job. -/
def afterJob (db : Db) : Option (State Unit) :=
  (runAlone (fun i => exec i) ()
    (withSession (processClaimed settings backend 0 (fun _ => "n") "j"))
    (World.fresh db)).map Prod.snd

theorem processed_of_afterJob {db : Db} {s' : State Unit} (h : afterJob db = some s') :
    jobRun.Processed settings backend (World.fresh db) s' := by
  obtain ⟨⟨r, s'⟩, hrun, rfl⟩ := Option.map_eq_some_iff.1 h
  exact ⟨r, hrun⟩

end Sample

end Vivac
