import Vivac.Jobs.AllOrNothing
import Vivac.Jobs.JobRows
import Vivac.Lib.Faults

/-!
# What a job records agrees with what it did

The rows of a job and its outcome are committed together, so whatever goes wrong in
between, the job row says that the rows were applied exactly when they are in the tables.
The one exception is a cancellation at a Redis command: the rows are applied by then, the
outcome is not set, and `finally` commits.
-/

set_option autoImplicit false

namespace Vivac

open Lib App

/-! ## The bulk loop under faults -/

section Loop

variable {ρ β : Type} {step : RowStep ρ β} {upsertRow : ℕ → ρ → App β} {K : Db → Prop}
  {rows : List ρ} {I : Db → Prop} {atStore : Exc → Prop}

/-- The worker, when ordinary errors are `Exception`s. -/
abbrev faultyWorker (atStore : Exc → Prop) : System Unit Exc Command (State Unit) :=
  faulty (fun e => e.isException = true) atStore

/-- The loop has come to tables with `K`; with no error noted, to those of the rows in order.
An exception out of the loop leaves no usable transaction. -/
def AfterLoop (step : RowStep ρ β) (K : Db → Prop) (index : ℕ) (rows : List ρ) (db : Db)
    (ds : List Db) (d : Db) (p : BulkProgress β) (r : Except Exc (BulkProgress β))
    (s : State Unit) :
    Prop :=
  match r with
  | .ok p' => ∃ d', K d' ∧ Tracks db ds d' s ∧ (p'.errors = [] →
      p.errors = [] ∧ step.failures index rows d = [] ∧ d' = step.tablesAfter index rows d)
  | .error _ => Stuck db s

theorem stable_afterLoop {index : ℕ} {db d : Db} {ds : List Db} {p : BulkProgress β}
    (r : Except Exc (BulkProgress β)) :
    Stable (Solo I) () (AfterLoop step K index rows db ds d p r) := by
  cases r with
  | ok p' =>
    rintro s s' hi hr ⟨d', hK, h, herrors⟩
    exact ⟨d', hK, stable_tracks s s' hi hr h, herrors⟩
  | error e => exact stable_stuck

theorem triple_bulkRows (law : RowLaw K step upsertRow rows) (db : Db) (ds : List Db) :
    ∀ (index : ℕ) (d : Db) (p : BulkProgress β), K d →
      Triple (faultyWorker atStore) (Solo I) () (Tracks db ds d) (bulkRows upsertRow index rows p)
        (AfterLoop step K index rows db ds d p) := by
  induction rows with
  | nil =>
    intro index d p hK
    refine (Triple.ret (stable_afterLoop (.ok p))).conseq (fun s _ hs => ?_) fun _ _ _ h => h
    exact ⟨d, hK, hs, fun h => ⟨h, rfl, rfl⟩⟩
  | cons row rows ih =>
    intro index d p hK
    have hrow : Triple (faultyWorker atStore) (Solo I) () (Tracks db (d :: ds) d)
        (upsertRow index row)
        (MayEnd (fun e => e.isException = true) db (d :: ds) (step index row d)) :=
      Triple.of_evaluates (law.evaluates (List.mem_cons_self ..) hK) fun e he => law.isException he
    refine Triple.bind_orStuck Triple.savepoint ?_ fun _ _ h => h
    refine Triple.bind_attempt solo_fits hrow fun out => ?_
    cases out with
    | ok b =>
      intro s hi hs
      obtain ⟨d', hstep, hs⟩ := hs
      refine Triple.bind_orStuck Triple.release ?_ (fun _ _ h => h) s hi hs
      refine (ih law.tail (index + 1) d' (p.succeed b) (law.keeps hstep hK)).conseq
        (fun _ _ h => h) fun r s _ h => ?_
      cases r with
      | error e => exact h
      | ok p' =>
        obtain ⟨d'', hK', hs, herrors⟩ := h
        refine ⟨d'', hK', hs, fun hnone => ?_⟩
        obtain ⟨hp, hfail, hafter⟩ := herrors hnone
        refine ⟨hp, ?_, ?_⟩
        · simpa only [RowStep.failures, hstep] using hfail
        · simpa only [RowStep.tablesAfter, hstep] using hafter
    | error e =>
      intro s hi hs
      obtain ⟨⟨d', hs⟩, he⟩ := hs
      dsimp only
      split
      · refine Triple.bind_orStuck Triple.rollbackTo ?_ (fun _ _ h => h) s hi hs
        refine (ih law.tail (index + 1) d (p.fail index e) hK).conseq
          (fun _ _ h => h) fun r s _ h => ?_
        cases r with
        | error e => exact h
        | ok p' =>
          obtain ⟨d'', hK', hs, herrors⟩ := h
          refine ⟨d'', hK', hs, fun hnone => ?_⟩
          obtain ⟨hp, -, -⟩ := herrors hnone
          simp [BulkProgress.fail] at hp
      · rename_i hexc
        refine Triple.raise (stable_afterLoop (.error e)) s hi ?_
        exact he.resolve_left hexc

/-- What a handler leaves of tables `d`: all rows when its answer says so, and none otherwise. -/
def BulkLeaves (step : RowStep ρ β) (rows : List ρ) (d : Db) (r : Except Exc BulkResult) (d' : Db) :
    Prop :=
  match r with
  | .ok result =>
    if result.failed = 0 ∧ result.dryRun = false then
      step.failures 0 rows d = [] ∧ d' = step.tablesAfter 0 rows d
    else d' = d
  | .error _ => d' = d

/-- A handler ends in a session that sees what it leaves, and the committed tables are as before. -/
def AfterHandler {α : Type} (db : Db) (leaves : Except Exc α → Db → Prop) (r : Except Exc α)
    (s : State Unit) : Prop :=
  ∃ ds d', leaves r d' ∧ Tracks db ds d' s

theorem stable_afterHandler {α : Type} {db : Db} {leaves : Except Exc α → Db → Prop}
    (r : Except Exc α) : Stable (Solo I) () (AfterHandler db leaves r) := by
  rintro s s' hi hr ⟨ds, d', hd', h⟩
  exact ⟨ds, d', hd', stable_tracks s s' hi hr h⟩

/-- Leaving the outer savepoint, and raising versions when its rows stay. -/
theorem triple_leaveOuter {rolledBack : Bool} {applied : App Unit} {db d d' : Db} {ds : List Db}
    (happlied : Triple (faultyWorker atStore) (Solo I) () (Tracks db ds d') applied fun r s =>
      ∃ a, r = .ok a ∧ Tracks db ds d' s) :
    Triple (faultyWorker atStore) (Solo I) () (Tracks db (d :: ds) d')
      (leaveOuter rolledBack applied)
      (OrStuck db (Tracks db ds (if rolledBack then d else d'))) := by
  cases rolledBack with
  | true => exact Triple.rollbackTo
  | false =>
    refine Triple.bind_orStuck Triple.release (happlied.conseq (fun _ _ h => h) ?_) fun _ _ h => h
    rintro r s - ⟨a, rfl, hs⟩
    exact hs

theorem triple_bulkUpsert (law : RowLaw K step upsertRow rows) {applied : List β → App Unit}
    (happlied : ∀ bs db ds d, Triple (faultyWorker atStore) (Solo I) ()
      (Tracks db ds d) (applied bs)
      fun r s => ∃ a, r = .ok a ∧ Tracks db ds d s)
    (db : Db) (dryRun : Bool) {d : Db} (hK : K d) :
    Triple (faultyWorker atStore) (Solo I) () (Tracks db [] d)
      (bulkUpsert upsertRow dryRun rows applied) (AfterHandler db (BulkLeaves step rows d)) := by
  have hstuck : ∀ e s, Stuck db s → AfterHandler db (BulkLeaves step rows d) (.error e) s := by
    intro e s h
    obtain ⟨ds, hs⟩ := h.tracks d
    exact ⟨ds, d, rfl, hs⟩
  refine Triple.bind_orStuck Triple.savepoint ?_ hstuck
  refine Triple.bind solo_fits (fun p s => AfterLoop step K 0 rows db [d] d {} (.ok p) s)
    ((triple_bulkRows law db [d] 0 d {} hK).conseq (fun _ _ h => h) fun r s _ h => ?_) fun p => ?_
  · cases r with
    | ok p => exact h
    | error e => exact hstuck e s h
  · rintro s hi ⟨d', -, hs, herrors⟩
    refine Triple.bind_orStuck (triple_leaveOuter (happlied p.upserted db [] d')) ?_ hstuck s hi hs
    refine (Triple.ret (stable_afterHandler (.ok (p.result dryRun)))).conseq (fun s _ hs => ?_)
      fun _ _ _ h => h
    refine ⟨[], _, ?_, hs⟩
    -- the rows stay exactly when no error is noted and the request is no dry run
    by_cases hkeep : p.errors = [] ∧ dryRun = false
    · obtain ⟨-, hfail, rfl⟩ := herrors hkeep.1
      simp [BulkLeaves, BulkProgress.result, hkeep.1, hkeep.2, hfail]
    · have hcond : (!p.errors.isEmpty || dryRun) = true := by
        by_cases hnone : p.errors = []
        · have hdry : dryRun ≠ false := fun h => hkeep ⟨hnone, h⟩
          simp [Bool.eq_true_of_not_eq_false hdry]
        · simp [hnone]
      have hno : ¬((p.result dryRun).failed = 0 ∧ (p.result dryRun).dryRun = false) := by
        simpa [BulkProgress.result] using hkeep
      simp only [BulkLeaves, if_neg hno, hcond, if_true]

end Loop

/-! ## The handlers under faults -/

section Handlers

variable {I : Db → Prop} {atStore : Exc → Prop} {be : Backend} {now : Timestamp}
  {newUid : ℕ → String}

/-- Raising a version catches what is raised, when that is an `Exception`. -/
theorem triple_bump_caught (hstore : ∀ e, atStore e → e.isException = true) (cfg : Settings)
    (vk : String) (db : Db) (ds : List Db) (d : Db) :
    Triple (faultyWorker atStore) (Solo I) () (Tracks db ds d) (Cache.bump cfg vk) fun r s =>
      ∃ a, r = .ok a ∧ Tracks db ds d s := by
  have hdone : Triple (faultyWorker atStore) (Solo I) () (Tracks db ds d) (.ret () : App Unit)
      fun r s => ∃ a, r = .ok a ∧ Tracks db ds d s := by
    intro s _ hs s' hi hr
    exact ⟨(), rfl, stable_tracks s s' hi hr hs⟩
  unfold Cache.bump
  split
  · refine Triple.tryCatch solo_fits _ Triple.incr (fun a => ?_) fun e => ?_
    · exact hdone.conseq (fun _ _ h => h.1) fun _ _ _ h => h
    · rintro s hi ⟨hs, he⟩
      have hexc : e.isException = true := by
        rcases he e rfl with rfl | he
        · rfl
        · exact hstore e he
      rw [if_pos hexc]
      exact hdone s hi hs
  · exact hdone

theorem triple_invalidateSpots_caught (hstore : ∀ e, atStore e → e.isException = true)
    (cfg : Settings)
    (uids : List String) (db : Db) (ds : List Db) (d : Db) :
    Triple (faultyWorker atStore) (Solo I) () (Tracks db ds d) (invalidateSpots cfg uids)
      fun r s => ∃ a, r = .ok a ∧ Tracks db ds d s := by
  have hbump : ∀ (vk : String) (q : App Unit), Triple (faultyWorker atStore) (Solo I) ()
      (Tracks db ds d) q (fun r s => ∃ a, r = .ok a ∧ Tracks db ds d s) →
      Triple (faultyWorker atStore) (Solo I) () (Tracks db ds d)
        ((Cache.bump cfg vk).bind fun _ => q) fun r s => ∃ a, r = .ok a ∧ Tracks db ds d s := by
    intro vk q hq
    refine Triple.bind solo_fits (fun _ => Tracks db ds d)
      ((triple_bump_caught hstore cfg vk db ds d).conseq (fun _ _ h => h) ?_) fun _ => hq
    rintro r s - ⟨a, rfl, hs⟩
    exact hs
  refine hbump Cache.spotsVersionKey _ ?_
  induction uids with
  | nil =>
    intro s _ hs s' hi hr
    exact ⟨(), rfl, stable_tracks s s' hi hr hs⟩
  | cons uid uids ih => exact hbump (Cache.spotDetailVersionKey uid) _ ih

/-- The result of a job is the answer of a bulk handler. -/
def Answered (leaves : Except Exc BulkResult → Db → Prop) : Except Exc JobResult → Db → Prop
  | .ok (.bulk result), d => leaves (.ok result) d
  | .ok (.dump _ _), _ => False
  | .error e, d => leaves (.error e) d

/-- The answer of a bulk handler becomes the result of its job. -/
theorem triple_answered {p : App BulkResult} {P : State Unit → Prop} {db : Db}
    {leaves : Except Exc BulkResult → Db → Prop}
    (hp : Triple (faultyWorker atStore) (Solo I) () P p (AfterHandler db leaves)) :
    Triple (faultyWorker atStore) (Solo I) () P (p.bind fun result => .ret (.bulk result))
      (AfterHandler db (Answered leaves)) := by
  refine Triple.bind solo_fits (fun result => AfterHandler db leaves (.ok result))
    (hp.conseq (fun _ _ h => h) fun r s _ h => ?_) fun result => ?_
  · cases r with
    | ok result => exact h
    | error e => exact h
  · intro s _ h s' hi hr
    have hanswered : AfterHandler db (Answered leaves) (.ok (.bulk result)) s := h
    exact stable_afterHandler _ s s' hi hr hanswered

/-- What the handler of a payload leaves of tables `d`. -/
def HandlerLeaves (be : Backend) (now : Timestamp) (newUid : ℕ → String) (payload : JobPayload)
    (d : Db) : Except Exc JobResult → Db → Prop :=
  match payload with
  | .spots request => Answered (BulkLeaves (spotRow be now newUid) request.rows d)
  | .businessInfo request => Answered (BulkLeaves (infoRow be now newUid) request.rows d)
  | .dbDump => fun r d' => d' = d ∧ ∀ result, r ≠ .ok (.bulk result)

theorem triple_runHandler (hstore : ∀ e, atStore e → e.isException = true) (cfg : Settings)
    (payload : JobPayload) (db d : Db) :
    Triple (faultyWorker atStore) (Solo I) () (Tracks db [] d)
      (runHandler cfg be now newUid payload)
      (AfterHandler db (HandlerLeaves be now newUid payload d)) := by
  cases payload with
  | spots request =>
    exact triple_answered (triple_bulkUpsert (rowLaw_spots request.rows)
      (fun bs db ds d => triple_invalidateSpots_caught hstore cfg _ db ds d) db
        request.dryRun trivial)
  | businessInfo request =>
    apply triple_answered
    let ids := request.rows.map SpotBusinessInfoBulkRow.spotExternalId
    have hrows : Triple (faultyWorker atStore) (Solo I) () (Tracks db [] d)
        (bulkUpsert (upsertMappedRow be now newUid (externalIdMapping ids d)) request.dryRun
          request.rows fun _ => .ret ())
        (AfterHandler db (BulkLeaves (infoRow be now newUid) request.rows d)) := by
      refine triple_bulkUpsert (rowLaw_businessInfo request.rows d) (fun _ db ds d => ?_) db
        request.dryRun rfl
      intro s _ hs s' hi hr
      exact ⟨(), rfl, stable_tracks s s' hi hr hs⟩
    have hmapping : Triple (faultyWorker atStore) (Solo I) () (Tracks db [] d)
        (buildExternalIdMapping ids) fun r s =>
          match r with
          | .ok mapping => mapping = externalIdMapping ids d ∧ Tracks db [] d s
          | .error e =>
            AfterHandler db (BulkLeaves (infoRow be now newUid) request.rows d) (.error e) s := by
      unfold buildExternalIdMapping
      split
      · rename_i hempty
        rw [List.isEmpty_iff.1 hempty, ← externalIdMapping_nil d]
        intro s _ hs s' hi hr
        exact ⟨rfl, stable_tracks s s' hi hr hs⟩
      · refine (Triple.statement _).conseq (fun _ _ h => h) fun r s _ h => ?_
        cases r with
        | ok mapping =>
          obtain ⟨d', hd', hs⟩ := h
          cases hd'
          exact ⟨rfl, hs⟩
        | error e => exact ⟨[], d, rfl, h.1⟩
    refine Triple.bind solo_fits (fun mapping s => mapping = externalIdMapping ids d ∧
      Tracks db [] d s) (hmapping.conseq (fun _ _ h => h) fun r s _ h => ?_) fun mapping => ?_
    · cases r with
      | ok mapping => exact h
      | error e => exact h
    rintro s hi ⟨rfl, hs⟩
    exact hrows s hi hs
  | dbDump =>
    intro s hi hs
    cases h : be.dumpDatabase now with
    | ok dump =>
      have hrun : runHandler cfg be now newUid .dbDump = .ret (.dump dump.1 dump.2) := by
        simp [runHandler, dbDumpHandler, h, Prog.ofExcept]
      rw [hrun]
      intro s' hi' hr
      exact ⟨[], d, ⟨rfl, by simp⟩, stable_tracks s s' hi' hr hs⟩
    | error e =>
      have hrun : runHandler cfg be now newUid .dbDump = .raise e := by
        simp [runHandler, dbDumpHandler, h, Prog.ofExcept]
      rw [hrun]
      intro s' hi' hr
      exact ⟨[], d, ⟨rfl, by simp⟩, stable_tracks s s' hi' hr hs⟩

end Handlers

/-! ## What a job row says -/

/-- The spots and business info of two databases agree. -/
structure SameRows (d d' : Db) : Prop where
  spots : d.spots = d'.spots
  businessInfo : d.businessInfo = d'.businessInfo

/-- All rows of the payload went through on the tables `before`, and `after` has them. -/
def RowsApplied (be : Backend) (now : Timestamp) (newUid : ℕ → String) (payload : JobPayload)
    (before after : Db) : Prop :=
  match payload with
  | .spots request => (spotRow be now newUid).failures 0 request.rows before = [] ∧
      SameRows after ((spotRow be now newUid).tablesAfter 0 request.rows before)
  | .businessInfo request => (infoRow be now newUid).failures 0 request.rows before = [] ∧
      SameRows after ((infoRow be now newUid).tablesAfter 0 request.rows before)
  | .dbDump => SameRows after before

/-- The job row says SUCCEEDED, with no failed row, and not as a dry run. -/
def SaysApplied (uid : String) (d : Db) : Prop :=
  ∃ job result, d.jobs.find? uid = some job ∧ job.status = .succeeded ∧
    job.result = some (.bulk result) ∧ result.failed = 0 ∧ result.dryRun = false

/-- The job row says that its rows were applied exactly when they are in the tables, and
otherwise the tables are as they were. -/
structure OutcomeAgrees (be : Backend) (now : Timestamp) (newUid : ℕ → String) (uid : String)
    (payload : JobPayload) (before d : Db) : Prop where
  applied : SaysApplied uid d → RowsApplied be now newUid payload before d
  untouched : ¬SaysApplied uid d → SameRows d before

section JobRows

theorem sameRows_rewriteJobs (uids : List String) (f : Rewrite Job.uid) (d : Db) :
    SameRows (rewriteJobs uids f d) d := ⟨rfl, rfl⟩

/-- An update by uid that finds a job changes the job under the uid. -/
theorem find?_updated {f : Rewrite Job.uid} {uid : String} {d : Db} {uids : List String}
    (huids : uids = (d.jobs.select fun j => j.uid == uid).map Job.uid) (hne : uids ≠ []) :
    ∃ old, d.jobs.find? uid = some old ∧
      (rewriteJobs uids f d).jobs.find? uid = some ((f.apply old).getD old) := by
  obtain ⟨u, hu⟩ := List.exists_mem_of_ne_nil uids hne
  rw [huids] at hu
  obtain ⟨old, hold, rfl⟩ := List.mem_map.1 hu
  obtain ⟨hmem, hkey⟩ := Table.mem_select.1 hold
  have hfind : d.jobs.find? uid = some old := Table.find?_eq_some.2 ⟨hmem, by simpa using hkey⟩
  refine ⟨old, hfind, ?_⟩
  rw [find?_rewriteJobs, hfind, Option.map_some, if_pos (huids ▸ hu)]

end JobRows

section Outcome

variable {be : Backend} {now : Timestamp} {newUid : ℕ → String} {uid : String}
  {payload : JobPayload} {before : Db}

theorem rowsApplied_of_leaves {result : BulkResult} {d : Db}
    (h : HandlerLeaves be now newUid payload before (.ok (.bulk result)) d)
    (hkeep : result.failed = 0 ∧ result.dryRun = false) :
    RowsApplied be now newUid payload before d := by
  cases payload with
  | spots request =>
    simp only [HandlerLeaves, Answered, BulkLeaves, if_pos hkeep] at h
    exact ⟨h.1, by rw [h.2], by rw [h.2]⟩
  | businessInfo request =>
    simp only [HandlerLeaves, Answered, BulkLeaves, if_pos hkeep] at h
    exact ⟨h.1, by rw [h.2], by rw [h.2]⟩
  | dbDump => exact absurd rfl (h.2 result)

theorem eq_of_leaves_dropped {result : BulkResult} {d : Db}
    (h : HandlerLeaves be now newUid payload before (.ok (.bulk result)) d)
    (hdrop : ¬(result.failed = 0 ∧ result.dryRun = false)) : d = before := by
  cases payload with
  | spots request => simpa only [HandlerLeaves, Answered, BulkLeaves, if_neg hdrop] using h
  | businessInfo request => simpa only [HandlerLeaves, Answered, BulkLeaves, if_neg hdrop] using h
  | dbDump => exact h.1

theorem eq_of_leaves_error {e : Exc} {d : Db}
    (h : HandlerLeaves be now newUid payload before (.error e) d) : d = before := by
  cases payload with
  | spots request => exact h
  | businessInfo request => exact h
  | dbDump => exact h.1

/-- A dump is no bulk job, and leaves the tables alone. -/
theorem eq_of_leaves_dump {s3Key : String} {sizeBytes : ℕ} {d : Db}
    (h : HandlerLeaves be now newUid payload before (.ok (.dump s3Key sizeBytes)) d) :
    d = before := by
  cases payload with
  | spots request => exact h.elim
  | businessInfo request => exact h.elim
  | dbDump => exact h.1

theorem RowsApplied.of_same {d d' : Db} (h : RowsApplied be now newUid payload before d)
    (hsame : SameRows d' d) : RowsApplied be now newUid payload before d' := by
  have hrows : ∀ {after : Db}, SameRows d after → SameRows d' after := fun ha =>
    ⟨hsame.spots.trans ha.spots, hsame.businessInfo.trans ha.businessInfo⟩
  cases payload with
  | spots request => exact ⟨h.1, hrows h.2⟩
  | businessInfo request => exact ⟨h.1, hrows h.2⟩
  | dbDump => exact hrows h

/-- The outcome recorded with what the handler left agrees with it. -/
theorem outcomeAgrees_recorded {job : Job} (hjob : before.jobs.find? uid = some job)
    (hrunning : job.status = .running) {outcome : Except Exc JobResult} {d : Db}
    (hleaves : HandlerLeaves be now newUid payload before outcome d) {uids : List String}
    (huids : uids = (d.jobs.select fun j => j.uid == uid).map Job.uid) (hne : uids ≠ []) :
    OutcomeAgrees be now newUid uid payload before
      (rewriteJobs uids (recordOutcome now outcome) d) := by
  obtain ⟨old, hold, hnew⟩ := find?_updated (f := recordOutcome now outcome) huids hne
  have hsame := sameRows_rewriteJobs uids (recordOutcome now outcome) d
  -- with any other status than SUCCEEDED the job says nothing, and nothing is there
  have hsilent :
      ((recordOutcome now outcome).apply old).any (fun j => j.status != .succeeded) = true →
      d = before → OutcomeAgrees be now newUid uid payload before
        (rewriteJobs uids (recordOutcome now outcome) d) := by
    intro hstatus hd
    refine ⟨?_, fun _ => by rw [← hd]; exact hsame⟩
    rintro ⟨job', result, hjob', hsucceeded, -⟩
    rw [hnew] at hjob'
    cases hjob'
    cases happly : (recordOutcome now outcome).apply old with
    | none => simp [happly] at hstatus
    | some j =>
      rw [happly] at hstatus hsucceeded
      simp at hstatus hsucceeded
      exact absurd hsucceeded hstatus
  cases outcome with
  | ok answer =>
    cases answer with
    | dump s3Key sizeBytes =>
      refine ⟨?_, fun _ => by rw [← eq_of_leaves_dump hleaves]; exact hsame⟩
      rintro ⟨job', result, hjob', -, hresult, -⟩
      rw [hnew] at hjob'
      cases hjob'
      cases hresult
    | bulk result =>
      by_cases hkeep : result.failed = 0 ∧ result.dryRun = false
      · refine ⟨fun _ => (rowsApplied_of_leaves hleaves hkeep).of_same hsame, fun hno => ?_⟩
        exact absurd ⟨_, result, hnew, rfl, rfl, hkeep.1, hkeep.2⟩ hno
      · refine ⟨?_, fun _ => by rw [← eq_of_leaves_dropped hleaves hkeep]; exact hsame⟩
        rintro ⟨job', result', hjob', -, hresult, hfailed, hdry⟩
        rw [hnew] at hjob'
        cases hjob'
        cases hresult
        exact absurd ⟨hfailed, hdry⟩ hkeep
  | error e =>
    have hd := eq_of_leaves_error hleaves
    refine hsilent ?_ hd
    rw [hd, hjob] at hold
    cases hold
    by_cases hexc : e.isException = true
    · simp [recordOutcome, Rewrite.total, hexc]
    · simp [recordOutcome, Rewrite.total, hexc, hrunning]

/-! ## The processes -/

variable {atStore : Exc → Prop} {I : Db → Prop}

/-- A session closes without a commit. -/
theorem triple_withSession_solo {α : Type} {P : State Unit → Prop} {p : App α}
    (hp : Triple (faultyWorker atStore) (Solo I) () P p fun _ _ => True) :
    Triple (faultyWorker atStore) (Solo I) () P (withSession p) fun _ _ => True := by
  have htrue : Stable (Solo I : Contract Unit (State Unit)) () fun _ => True :=
    fun _ _ _ _ _ => trivial
  refine Triple.bind_attempt solo_fits hp fun r => ?_
  refine Triple.bind solo_fits (fun _ _ => True)
    ((Triple.rollback htrue).conseq (fun _ _ h => h) fun r _ _ _ => by cases r <;> trivial) fun _ =>
      ?_
  cases r with
  | ok a => exact fun _ _ _ _ _ _ => trivial
  | error e => exact fun _ _ _ _ _ _ => trivial

/-- Whatever follows when nothing more is known and nothing more is done. -/
theorem triple_done {α : Type} {P : State Unit → Prop} (r : Except Exc α) :
    Triple (faultyWorker atStore) (Solo I) () P (Prog.ofExcept r) fun _ _ => True := by
  cases r with
  | ok a => exact fun _ _ _ _ _ _ => trivial
  | error e => exact fun _ _ _ _ _ _ => trivial

/-- A statement, and then a commit unless `p` fails in between. -/
theorem triple_statement_commit {R α : Type} {st : Statement R} {db d : Db} {ds : List Db}
    {f : R → App α} (hf : ∀ a d', st.apply d = .ok (a, d') →
      Triple (faultyWorker atStore) (Solo I) () (Tracks db ds d') (f a) fun _ _ => True) :
    Triple (faultyWorker atStore) (Solo I) () (Tracks db ds d) ((execute st).bind f)
      fun _ _ => True := by
  refine Triple.bind solo_fits (fun a s => ∃ d', st.apply d = .ok (a, d') ∧ Tracks db ds d' s)
    ((Triple.statement st).conseq (fun _ _ h => h) fun r s _ h => ?_) fun a => ?_
  · cases r with
    | ok a => exact h
    | error e => trivial
  · rintro s hi ⟨d', hst, hs⟩
    exact hf a d' hst s hi hs

theorem triple_processJob (hstore : ∀ e, atStore e → e.isException = true) (cfg : Settings)
    {job : Job} (hjob : before.jobs.find? job.uid = some job) (hrunning : job.status = .running) :
    Triple (faultyWorker atStore) (Solo (OutcomeAgrees be now newUid job.uid job.payload before)) ()
      (Tracks before [] before) (processJob cfg be now newUid job) fun _ _ => True := by
  refine triple_statement_commit fun _ d' hst => ?_
  cases hst
  refine Triple.bind_attempt solo_fits (triple_runHandler hstore cfg job.payload before before)
    fun outcome => ?_
  rintro s hi ⟨ds, d, hleaves, hs⟩
  refine Triple.bind solo_fits (fun _ s => ∃ d', OutcomeAgrees be now newUid job.uid job.payload
    before d' ∧ Tracks before ds d' s) ?_ (fun _ => ?_) s hi hs
  · -- the flush of the outcome
    refine Triple.bind solo_fits (fun uids s => ∃ d', (updateJobs (fun j => j.uid == job.uid)
      (recordOutcome now outcome)).apply d = .ok (uids, d') ∧ Tracks before ds d' s)
      ((Triple.statement _).conseq (fun _ _ h => h) fun r s _ h => ?_) fun uids => ?_
    · cases r with
      | ok uids => exact h
      | error e => trivial
    · split
      · exact fun _ _ _ _ _ _ => trivial
      · rename_i hne
        rintro s hi ⟨d', hst, hs⟩ s' hi' hr
        refine ⟨d', ?_, stable_tracks s s' hi' hr hs⟩
        cases hst
        exact outcomeAgrees_recorded hjob hrunning hleaves rfl (by simpa using hne)
  · rintro s hi ⟨d', hagrees, hs⟩
    refine Triple.bind solo_fits (fun _ _ => True) ((Triple.commit hagrees).conseq (fun _ _ h => h)
      fun r _ _ _ => by cases r <;> trivial) (fun _ => ?_) s hi hs
    cases outcome with
    | ok result => exact triple_done (.ok ())
    | error e =>
      dsimp only
      split
      · exact triple_done (.ok ())
      · exact triple_done (.error e)

theorem triple_processClaimed (hstore : ∀ e, atStore e → e.isException = true) (cfg : Settings)
    {job : Job} (hjob : before.jobs.find? uid = some job) (hrunning : job.status = .running) :
    Triple (faultyWorker atStore) (Solo (OutcomeAgrees be now newUid uid job.payload before)) ()
      (Tracks before [] before) (processClaimed cfg be now newUid uid) fun _ _ => True := by
  obtain rfl : job.uid = uid := (Table.find?_eq_some.1 hjob).2
  refine Triple.bind solo_fits (fun j s => j = job ∧ Tracks before [] before s) ?_ fun j => ?_
  · refine Triple.bind solo_fits (fun found s => found = some job ∧ Tracks before [] before s)
      ((Triple.statement _).conseq (fun _ _ h => h) fun r s _ h => ?_) fun found => ?_
    · cases r with
      | ok found =>
        obtain ⟨d', hd', hs⟩ := h
        cases hd'
        exact ⟨hjob, hs⟩
      | error e => trivial
    · rintro s hi ⟨rfl, hs⟩ s' hi' hr
      exact ⟨rfl, stable_tracks s s' hi' hr hs⟩
  · rintro s hi ⟨rfl, hs⟩
    exact triple_processJob hstore cfg hjob hrunning s hi hs

/-- Failing the jobs that still run changes nothing that a job says of its rows. -/
theorem OutcomeAgrees.cleanup {d : Db} {uids : List String} {f : Rewrite Job.uid}
    (h : OutcomeAgrees be now newUid uid payload before d)
    (huids : uids = (d.jobs.select fun j => j.status == .running).map Job.uid)
    (hf : ∀ j, (f.apply j).any (fun j => j.status == .failed) = true) :
    OutcomeAgrees be now newUid uid payload before (rewriteJobs uids f d) := by
  have hsame := sameRows_rewriteJobs uids f d
  have hsame' : SaysApplied uid (rewriteJobs uids f d) ↔ SaysApplied uid d := by
    constructor
    · rintro ⟨job, result, hjob, hsucceeded, hrest⟩
      rw [find?_rewriteJobs] at hjob
      obtain ⟨old, hold, rfl⟩ := Option.map_eq_some_iff.1 hjob
      by_cases hin : old.uid ∈ uids
      · rw [if_pos hin] at hsucceeded
        have hfailed := hf old
        cases happly : f.apply old with
        | none => simp [happly] at hfailed
        | some j =>
          rw [happly] at hfailed hsucceeded
          simp at hfailed hsucceeded
          rw [hfailed] at hsucceeded
          cases hsucceeded
      · rw [if_neg hin] at hsucceeded hrest
        exact ⟨old, result, hold, hsucceeded, hrest⟩
    · rintro ⟨job, result, hjob, hsucceeded, hrest⟩
      -- a job that succeeded is not among the running ones
      have hnot : job.uid ∉ uids := by
        intro hin
        rw [huids] at hin
        obtain ⟨j, hj, huid⟩ := List.mem_map.1 hin
        obtain ⟨hmem, hstatus⟩ := Table.mem_select.1 hj
        obtain rfl := d.jobs.eq_of_key_eq hmem (Table.find?_eq_some.1 hjob).1 huid
        simp [hsucceeded] at hstatus
      refine ⟨job, result, ?_, hsucceeded, hrest⟩
      rw [find?_rewriteJobs, hjob, Option.map_some, if_neg hnot]
  exact ⟨fun hs => (h.applied (hsame'.1 hs)).of_same hsame, fun hs =>
    have hd := h.untouched fun hd => hs (hsame'.2 hd)
    ⟨hsame.spots.trans hd.spots, hsame.businessInfo.trans hd.businessInfo⟩⟩

theorem triple_startupOrphanCleanup (now' : Timestamp) {d : Db}
    (h : OutcomeAgrees be now newUid uid payload before d) :
    Triple (faultyWorker atStore) (Solo (OutcomeAgrees be now newUid uid payload before)) ()
      (Tracks d [] d) (startupOrphanCleanup now') fun _ _ => True := by
  refine triple_withSession_solo (triple_statement_commit fun uids d' hst => ?_)
  cases hst
  refine Triple.bind solo_fits (fun _ _ => True) ((Triple.commit (h.cleanup rfl ?_)).conseq
    (fun _ _ h => h) fun r _ _ _ => by cases r <;> trivial) fun _ => triple_done (.ok _)
  intro j
  rfl

/-- What a process at start-up does before it serves. -/
def startUp (now : Timestamp) : App Unit := (startupOrphanCleanup now).bind fun _ => .ret ()

/-- The processes of a job: the one that claimed it, and those that start up after a death. -/
abbrev JobLifetimes (atStore : Exc → Prop) :
    Config Unit Exc Command (State Unit) Unit → Config Unit Exc Command (State Unit) Unit → Prop :=
  Lifetimes (faultyWorker atStore) startUp

end Outcome

/-- In every committed state from the start of `process_job` on, through any error, death or
cancellation other than one at a Redis command, and through the clean-ups of later processes,
the job row says that its rows were applied exactly when they are in the tables. -/
theorem recorded_outcome_agrees (cfg : Settings) (be : Backend) (now : Timestamp)
    (newUid : ℕ → String) {uid : String} {job : Job} {s₀ : State Unit}
    (hjob : s₀.db.jobs.find? uid = some job) (hrunning : job.status = .running)
    (hidle : s₀.tx () = {}) {p : Config Unit Exc Command (State Unit) Unit}
    (h : JobLifetimes (fun e => e.isException = true)
      ⟨s₀, fun _ => withSession (processClaimed cfg be now newUid uid)⟩ p) :
    OutcomeAgrees be now newUid uid job.payload s₀.db p.state.db := by
  have hstart : OutcomeAgrees be now newUid uid job.payload s₀.db s₀.db := by
    refine ⟨?_, fun _ => ⟨rfl, rfl⟩⟩
    rintro ⟨job', result, hjob', hsucceeded, -⟩
    cases hjob.symm.trans hjob'
    rw [hrunning] at hsucceeded
    cases hsucceeded
  have hall : AllMeet (faultyWorker fun e => e.isException = true)
      (Solo (OutcomeAgrees be now newUid uid job.payload s₀.db)) (fun _ _ _ => True)
      ⟨s₀, fun _ => withSession (processClaimed cfg be now newUid uid)⟩ :=
    ⟨hstart, fun _ =>
      triple_withSession_solo (triple_processClaimed (fun _ h => h) cfg hjob hrunning)
      s₀ hstart (tracks_idle hidle)⟩
  refine Lifetimes.invariant hall (fun now' d hd => ?_) h
  refine Triple.bind solo_fits (fun _ _ => True)
    ((triple_startupOrphanCleanup now' hd).conseq (fun _ _ h => h)
      fun r _ _ _ => by cases r <;> trivial) fun _ => triple_done (.ok ())

/-! ## Runs -/

namespace Sample

/-- The process that works on the job. -/
def worker : App Unit := processClaimed settings backend 0 (fun _ => "n") "j"

def workerStart : Config Unit Exc Command (State Unit) Unit :=
  ⟨World.fresh oneJob, fun _ => withSession worker⟩

/-- Commands answer, except that the worker is cancelled when it raises a version. -/
def execCancelled (i : Unit) {β : Type} (c : Command β) (s : State Unit) :
    Option (Except Exc β × State Unit) :=
  match c with
  | .incr _ => some (.error .cancelled, s)
  | c => exec i c s

end Sample

/-- Left alone, the worker applies the row and says so. -/
theorem recorded_outcome_agrees_worker :
    ∃ p, JobLifetimes (fun e => e.isException = true) Sample.workerStart p ∧
      SaysApplied "j" p.state.db ∧
      RowsApplied Sample.backend 0 (fun _ => "n") Sample.runningJob.payload Sample.oneJob
        p.state.db := by
  have hrun :
      ((runAlone (fun i => exec i) () Sample.worker (World.fresh Sample.oneJob)).bind fun out =>
      (out.2.db.jobs.find? "j").bind fun job =>
      (job.result.bind JobResult.answer?).bind fun result =>
        if job.status = .succeeded ∧ result.failed = 0 ∧ result.dryRun =
          false then some () else none) =
      some () := by
    decide +kernel
  obtain ⟨⟨r, s⟩, hrun, h⟩ := Option.bind_eq_some_iff.1 hrun
  obtain ⟨job, hjob, h⟩ := Option.bind_eq_some_iff.1 h
  obtain ⟨result, hanswer, h⟩ := Option.bind_eq_some_iff.1 h
  have hresult : job.result = some (.bulk result) := by
    obtain ⟨r, hr, hbulk⟩ := Option.bind_eq_some_iff.1 hanswer
    rw [hr, JobResult.answer?_eq_some.1 hbulk]
  split at h
  · rename_i hcheck
    have halone : Run platform Sample.workerStart
        ⟨s, Function.update Sample.workerStart.thread () (closeSession r)⟩ :=
      run_of_runAlone hrun rfl
    have hlife : JobLifetimes (fun e => e.isException = true) Sample.workerStart
        ⟨s, Function.update Sample.workerStart.thread () (closeSession r)⟩ :=
      .of_platform halone
    have hsaid : SaysApplied "j" s.db :=
      ⟨job, result, hjob, hcheck.1, hresult, hcheck.2.1, hcheck.2.2⟩
    have hrunning : (World.fresh Sample.oneJob : State Unit).db.jobs.find? "j" =
        some Sample.runningJob := rfl
    exact ⟨_, hlife, hsaid, (recorded_outcome_agrees Sample.settings Sample.backend 0 (fun _ => "n")
      hrunning rfl rfl hlife).applied hsaid⟩
  · cases h

/-- Cancelled at its first Redis command, the worker commits the row without an outcome; the
next process fails the job. -/
theorem recorded_outcome_cancelled :
    ∃ p, JobLifetimes (fun _ => True) Sample.workerStart p ∧
      ¬OutcomeAgrees Sample.backend 0 (fun _ => "n") "j" Sample.runningJob.payload Sample.oneJob
        p.state.db := by
  have hrun : ((runAlone Sample.execCancelled () Sample.worker (World.fresh Sample.oneJob)).bind
      fun out => (runAlone (fun i => exec i) () (cleanupOrphanedJobs 1) out.2.restarted).bind
        fun out' => (out'.2.db.jobs.find? "j").bind fun job =>
          if job.status = .failed ∧ out'.2.db.spots.rows.length = 1 then some () else none) =
      some () := by
    decide +kernel
  obtain ⟨⟨r, s⟩, hrun, h⟩ := Option.bind_eq_some_iff.1 hrun
  obtain ⟨⟨r', s'⟩, hclean, h⟩ := Option.bind_eq_some_iff.1 h
  obtain ⟨job, hjob, h⟩ := Option.bind_eq_some_iff.1 h
  split at h
  · rename_i hcheck
    have hfault : ∀ (i : Unit) {β : Type} (c : Command β) (s : State Unit) r s',
        (System.ofExec Sample.execCancelled Env).step i c s r s' →
        (faultyWorker fun _ => True).step i c s r s' := by
      intro i β c s r s' hs
      cases c with
      | incr key =>
        cases hs
        exact .inr (.store rfl trivial)
      | _ => exact .inl hs
    have hlife : JobLifetimes (fun _ => True) Sample.workerStart
        ⟨s, Function.update Sample.workerStart.thread () (closeSession r)⟩ :=
      .of_run hfault (fun _ _ h => h) (run_of_runAlone hrun rfl)
    have halone : Run platform ⟨s.restarted, fun _ => startUp 1⟩
        ⟨s', Function.update (fun _ => startUp 1) () ((closeSession r').bind fun _ => .ret ())⟩ :=
      run_of_runAlone (f := fun r => (closeSession r).bind fun _ => .ret ()) hclean
        (Prog.bind_assoc _ _ _)
    have hnext : JobLifetimes (fun _ => True) ⟨s.restarted, fun _ => startUp 1⟩
        ⟨s', Function.update (fun _ => startUp 1) () ((closeSession r').bind fun _ => .ret ())⟩ :=
      .of_platform halone
    refine ⟨_, (hlife.tail (.restart 1)).trans hnext, fun hagrees => ?_⟩
    have hsilent : ¬SaysApplied "j" s'.db := by
      rintro ⟨job', result, hjob', hsucceeded, -⟩
      cases hjob.symm.trans hjob'
      rw [hcheck.1] at hsucceeded
      cases hsucceeded
    have hspots := congrArg (fun t => t.rows.length) (hagrees.untouched hsilent).spots
    rw [hcheck.2] at hspots
    cases hspots
  · cases h

end Vivac
