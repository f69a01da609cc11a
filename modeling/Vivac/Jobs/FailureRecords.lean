import Vivac.Jobs.RecordedOutcome

/-!
# When a failed handler is recorded

`process_job` catches what the handler raises and writes the failure in the handler's own session,
without a rollback. `processWith` is `process_job` with any handler in the place of the registered
one, and `HandlerRaises` a run of it, under faults of the database and the cache, up to the point
where the handler has raised.

What follows depends on that point alone. A transaction that has failed refuses the update of the
job, so `process_job` raises and the job stays as it was; a usable one is committed with everything
the handler left in it. A handler that has rolled the session back has expired the job, and the log
line of the failure raises where it reads the job's uid.
-/

set_option autoImplicit false

namespace Vivac

open Lib App

section Definitions

variable (now : Timestamp) (job : Job)

/-- `session.rollback()`, which expires what the session has loaded; the end of a savepoint and a
commit (`expire_on_commit=False`) do not. -/
def Command.expires : {β : Type} → Command β → Bool
  | _, .rollback => true
  | _, _ => false

/-- What reading an expired attribute raises outside of an awaited call. -/
def missingGreenlet : Exc :=
  .database "MissingGreenlet" "greenlet_spawn has not been called; can't call await_only() here."

/-- What `process_job` does when the handler has ended. The exception of `logger.exception`, which
reads the uid of an expired job, comes through the `finally`. -/
def recordAndCommit (expired : Bool) (outcome : Except Exc JobResult) : App Unit := do
  flushJob job.uid (recordOutcome now outcome)
  commit
  match outcome with
  | .ok _ => .ret ()
  | .error e =>
    if e.isException then
      if expired then .raise missingGreenlet else .ret ()
    else .raise e

/-- `process_job` up to the end of the handler, with whether the job has expired. -/
def runToOutcome (handler : App JobResult) : App (Except Exc JobResult × Bool) := do
  setAuditUser job.createdBy
  handler.attemptNoting Command.expires false

/-- `process_job` with any handler. -/
def processWith (handler : App JobResult) : App Unit := do
  let (outcome, expired) ← runToOutcome job handler
  recordAndCommit now job expired outcome

/-- The registered handlers roll no session back. -/
theorem uses_unexpired (cfg : Settings) (be : Backend) (newUid : ℕ → String)
    (payload : JobPayload) :
    (runHandler cfg be now newUid payload).Uses fun c => Command.expires c = false := by
  have hadmits : AdmitsSavepoints fun {β : Type} (c : Command β) => Command.expires c = false :=
    ⟨⟨fun _ => rfl, fun _ => rfl⟩, rfl, rfl, rfl⟩
  exact hadmits.runHandler cfg be now newUid (fun _ _ => rfl) (fun _ _ => rfl)
    (fun _ => rfl) payload

theorem runToOutcome_eq {handler : App JobResult}
    (h : handler.Uses fun c => Command.expires c = false) :
    runToOutcome job handler = (setAuditUser job.createdBy).bind fun _ =>
      handler.attempt.bind fun r => .ret (r, false) :=
  Prog.bind_congr fun _ => Prog.attemptNoting_eq h

/-- The registered handlers are some of them. -/
theorem processJob_eq_processWith (cfg : Settings) (be : Backend) (newUid : ℕ → String) :
    processJob cfg be now newUid job =
      processWith now job (runHandler cfg be now newUid job.payload) := by
  unfold processWith
  rw [Prog.bind_eq_bind, runToOutcome_eq job (uses_unexpired now cfg be newUid job.payload),
    Prog.bind_assoc]
  refine Prog.bind_congr fun _ => ?_
  rw [Prog.bind_assoc]
  rfl

/-- The sessions of a worker, whose commands may go wrong with ordinary exceptions. -/
abbrev jobSessions : System Unit Exc Command (State Unit) :=
  faulty (fun e => e.isException = true) fun e => e.isException = true

/-- From `s₀`, with nothing pending, `process_job` has come to `s`, where the handler has raised an
exception that `except Exception` catches, and has rolled the session back or not. -/
structure HandlerRaises (handler : App JobResult) (s₀ : State Unit) (e : Exc) (expired : Bool)
    (s : State Unit) : Prop where
  found : s₀.db.jobs.find? job.uid = some job
  idle : s₀.tx () = {}
  ordinary : e.isException = true
  /-- A class has a name. -/
  named : e.className ≠ ""
  run : Run jobSessions (⟨s₀, fun _ => runToOutcome job handler⟩ : Config _ _ _ _ _)
    ⟨s, fun _ => .ret (.error e, expired)⟩

/-- The tables, but for the columns of a job that say how it ended. -/
def forgetOutcome (uid : String) : Db → Db :=
  rewriteJobs [uid] (.total (fun j => { j with
    status := .failed
    error := none
    finishedAt := none }) fun _ => rfl)

/-- The job is failed, with an error and a time, and the rest of the tables is as before. -/
structure FailureRecorded (uid : String) (before d : Db) : Prop where
  job : ∃ job text, d.jobs.find? uid = some job ∧ job.status = .failed ∧ job.error = some text ∧
    text ≠ "" ∧ job.finishedAt.isSome
  rest : forgetOutcome uid d = forgetOutcome uid before

end Definitions

/-! ## The columns of the outcome -/

section Columns

variable {now : Timestamp} {uid : String} {e : Exc}

theorem sanitizeExcMessage_ne_empty (h : e.className ≠ "") : sanitizeExcMessage e ≠ "" := by
  have hname : e.className.toList ≠ [] := by
    simpa using h
  -- the reason starts with the name, and cutting it off leaves a text of its own
  have hcut : ∀ reason : List Char, reason ≠ [] → ∀ n,
      (if n < reason.length then String.ofList (reason.take n ++ "...".toList)
        else String.ofList reason) ≠ "" := by
    intro reason hreason n hempty
    split at hempty
    · have hlist := congrArg String.toList hempty
      rw [String.toList_ofList] at hlist
      simp at hlist
    · have hlist := congrArg String.toList hempty
      rw [String.toList_ofList] at hlist
      exact hreason hlist
  unfold sanitizeExcMessage
  apply hcut
  split
  · exact hname
  · intro hnil
    rw [List.append_assoc, List.append_eq_nil_iff] at hnil
    exact hname hnil.1

/-- Updates of a job's row one after the other are one update. -/
theorem rewriteJobs_rewriteJobs {f g h : Job → Job} {hf hg hh}
    (hgf : ∀ j, g (f j) = h j) (d : Db) :
    rewriteJobs [uid] (.total g hg) (rewriteJobs [uid] (.total f hf) d) =
      rewriteJobs [uid] (.total h hh) d := by
  have hrows : ((d.jobs.rewrite (fun j => j.uid ∈ [uid]) (.total f hf)).rewrite
      (fun j => j.uid ∈ [uid]) (.total g hg)) = d.jobs.rewrite (fun j =>
        j.uid ∈ [uid]) (.total h hh) := by
    apply Table.ext
    simp only [Table.rewrite, Table.rows_update, List.map_map]
    refine List.map_congr_left fun j _ => ?_
    by_cases hj : j.uid = uid
    · have hj' : (f j).uid = uid := (hf j).trans hj
      simp [Rewrite.total, hj, hj', hgf]
    · simp [hj]
  simp only [rewriteJobs, hrows]

/-- What is recorded is forgotten. -/
theorem forgetOutcome_recorded (he : e.isException = true) (d : Db) :
    forgetOutcome uid (rewriteJobs [uid] (recordOutcome now (.error e)) d) = forgetOutcome uid d :=
  rewriteJobs_rewriteJobs (fun j => by simp [he]) d

theorem find?_forgetOutcome_isSome (d : Db) :
    ((forgetOutcome uid d).jobs.find? uid).isSome = (d.jobs.find? uid).isSome := by
  unfold forgetOutcome
  rw [find?_rewriteJobs, Option.isSome_map]

/-- A failure written over tables is recorded against those that differ in nothing else. -/
theorem failureRecorded_iff {before d : Db} {job : Job} (he : e.isException = true)
    (hname : e.className ≠ "") (hjob : d.jobs.find? uid = some job) :
    FailureRecorded uid before (rewriteJobs [uid] (recordOutcome now (.error e)) d) ↔
      forgetOutcome uid d = forgetOutcome uid before := by
  constructor
  · intro h
    rw [← h.rest, forgetOutcome_recorded he]
  · intro h
    refine ⟨⟨{ job with
      status := .failed
      error := some (sanitizeExcMessage e)
      finishedAt := some now }, sanitizeExcMessage e, ?_, rfl, rfl,
      sanitizeExcMessage_ne_empty hname, rfl⟩, ?_⟩
    · rw [find?_rewriteJobs, hjob]
      simp [uid_of_find?_jobs hjob, recordOutcome, Rewrite.total, he]
    · rw [forgetOutcome_recorded he, h]

end Columns

/-! ## The rest of `process_job` -/

section Rest

variable {now : Timestamp} {job : Job} {s : State Unit} {e : Exc}

/-- The worker's session has no other to wait for. -/
theorem sees_active (h : (s.tx ()).status = .active) :
    Sees () s.db ((s.tx ()).saved.map fun w => w.write s.db) (s.view ()) s := by
  refine ⟨⟨rfl, ?_, by simp [h], rfl⟩, h, rfl⟩
  funext k
  unfold World.heldByOther
  cases s.holder k <;> rfl

variable (now job) in
/-- Without a usable transaction the update of the job is refused. -/
theorem recordAndCommit_refused (h : (s.tx ()).status ≠ .active) (expired : Bool)
    (outcome : Except Exc JobResult) :
    ∃ e', runAlone (fun i => exec i) () (recordAndCommit now job expired outcome) s =
      some (.error e', s) := by
  cases hstatus : (s.tx ()).status with
  | active => exact absurd hstatus h
  | failed =>
      refine ⟨Faults.failedTx, ?_⟩
      simp [recordAndCommit, flushJob, execute, Prog.perform, runAlone, exec, onActive, hstatus,
        Prog.ofExcept]
  | lost =>
      refine ⟨Faults.lostConnection, ?_⟩
      simp [recordAndCommit, flushJob, execute, Prog.perform, runAlone, exec, onActive, hstatus,
        Prog.ofExcept]

/-- The update of a job the session sees. -/
theorem evaluates_flushJob {uid : String} {f : Rewrite Job.uid} {d : Db}
    (h : (d.jobs.find? uid).isSome = true) :
    Evaluates (flushJob uid f) d (.ok ((), rewriteJobs [uid] f d)) := by
  obtain ⟨j, hj⟩ := Option.isSome_iff_exists.1 h
  have huids : (d.jobs.select fun j => j.uid == uid).map Job.uid = [uid] := by
    rw [Table.select_eq_find? (k := uid) (fun r => by simp), hj]
    simp [uid_of_find?_jobs hj]
  have hst : (updateJobs (fun j => j.uid == uid) f).apply d =
      .ok ([uid], rewriteJobs [uid] f d) := by
    simp [Stmt.apply, updateJobs, huids, Except.map]
  refine Evaluates.bind_ok (b := [uid]) ?_ (Evaluates.ret () _)
  rw [← hst]
  exact Evaluates.statement _ d

/-- The update of a job the session does not see. -/
theorem evaluates_flushJob_none {uid : String} {f : Rewrite Job.uid} {d : Db}
    (h : d.jobs.find? uid = none) :
    Evaluates (flushJob uid f) d (.error staleDataError) := by
  have huids : (d.jobs.select fun j => j.uid == uid).map Job.uid = [] := by
    rw [Table.select_eq_find? (k := uid) (fun r => by simp), h]
    rfl
  have hst : (updateJobs (fun j => j.uid == uid) f).apply d = .ok ([], rewriteJobs [] f d) := by
    simp [Stmt.apply, updateJobs, huids, Except.map]
  refine Evaluates.bind_ok (b := []) ?_ (Evaluates.raise staleDataError (rewriteJobs [] f d))
  rw [← hst]
  exact Evaluates.statement _ d

variable (now) in
/-- A usable transaction that sees the job commits what it sees, and the failure over it; then the
log line raises, if the job has expired. -/
theorem recordAndCommit_active (h : (s.tx ()).status = .active) (he : e.isException = true)
    (hjob : ((s.view ()).jobs.find? job.uid).isSome = true) (expired : Bool) :
    ∃ r s', runAlone (fun i => exec i) () (recordAndCommit now job expired (.error e)) s =
        some (r, s') ∧ (r = .ok () ↔ expired = false) ∧
      s'.db = rewriteJobs [job.uid] (recordOutcome now (.error e)) (s.view ()) := by
  have hlone : Lone () (Sees () s.db ((s.tx ()).saved.map fun w => w.write s.db) (s.view ()))
      (recordAndCommit now job expired (.error e)) fun r s' => (r = .ok () ↔ expired = false) ∧
        s'.db = rewriteJobs [job.uid] (recordOutcome now (.error e)) (s.view ()) := by
    refine Lone.bind_ok (Lone.of_evaluates (evaluates_flushJob hjob) _ _) ?_
    refine Lone.bind_ok Lone.commit ?_
    dsimp only
    rw [if_pos he]
    cases expired with
    | true => exact Lone.raise missingGreenlet fun s' hs => ⟨by simp, hs.holds.db_eq⟩
    | false => exact Lone.ret () fun s' hs => ⟨by simp, hs.holds.db_eq⟩
  exact hlone s (sees_active h)

variable (now) in
/-- A usable transaction that does not see the job raises. -/
theorem recordAndCommit_none (h : (s.tx ()).status = .active)
    (hjob : (s.view ()).jobs.find? job.uid = none) (expired : Bool)
    (outcome : Except Exc JobResult) :
    ∃ s', runAlone (fun i => exec i) () (recordAndCommit now job expired outcome) s =
      some (.error staleDataError, s') := by
  have hlone : Lone () (Sees () s.db ((s.tx ()).saved.map fun w => w.write s.db) (s.view ()))
      (recordAndCommit now job expired outcome) fun r _ => r = .error staleDataError := by
    refine Lone.bind _ (Lone.of_evaluates (evaluates_flushJob_none hjob) _ _) (fun _ s' hs => ?_)
      fun _ _ hs => hs.1
    cases hs.1
  obtain ⟨r, s', hrun, rfl⟩ := hlone s (sees_active h)
  exact ⟨s', hrun⟩

end Rest

/-- The failure of any handler is recorded, with nothing else committed and nothing raised, exactly
when the handler has left a usable transaction that sees the tables `process_job` began with, but
for the columns that are then set, and has not rolled the session back. -/
theorem failure_recorded_iff (now : Timestamp) {job : Job} {handler : App JobResult}
    {s₀ s : State Unit} {e : Exc} {expired : Bool} (h : HandlerRaises job handler s₀ e expired s) :
    ∃ r s', Run jobSessions ⟨s₀, fun _ => processWith now job handler⟩ ⟨s', fun _ => .ofExcept r⟩ ∧
      runAlone (fun i => exec i) () (recordAndCommit now job expired (.error e)) s =
        some (r, s') ∧
      (r = .ok () ∧ FailureRecorded job.uid s₀.db s'.db ↔
        (s.tx ()).status = .active ∧ expired = false ∧
          forgetOutcome job.uid (s.view ()) = forgetOutcome job.uid s₀.db) := by
  have hrun :
      ∀ {r s'}, runAlone (fun i => exec i) () (recordAndCommit now job expired (.error e)) s =
      some (r, s') → Run jobSessions ⟨s₀, fun _ => processWith now job handler⟩
        (⟨s', fun _ => .ofExcept r⟩ : Config Unit Exc Command (State Unit) Unit) := by
    intro r s' halone
    have hrest : Run platform (⟨s, fun _ => recordAndCommit now job expired (.error e)⟩ :
        Config Unit Exc Command (State Unit) Unit) _ := run_to_end halone
    rw [show (Function.update (fun _ => recordAndCommit now job expired (.error e)) ()
      (.ofExcept r) : Unit → App Unit) = fun _ => .ofExcept r from funext fun _ => rfl] at hrest
    refine (h.run.bind fun (outcome, expired) =>
      recordAndCommit now job expired outcome).trans (Run.of_le ?_ ?_ hrest)
    · intro i β c s r s' hs
      exact .inl hs
    · intro s s' hs
      exact hs
  by_cases hactive : (s.tx ()).status = .active
  · cases hjob : (s.view ()).jobs.find? job.uid with
    | some j =>
        obtain ⟨r, s', halone, hreturns, hdb⟩ := recordAndCommit_active now hactive h.ordinary
          (Option.isSome_iff_exists.2 ⟨j, hjob⟩) expired
        refine ⟨r, s', hrun halone, halone, ?_⟩
        rw [hdb, failureRecorded_iff h.ordinary h.named hjob, hreturns]
        simp [hactive]
    | none =>
        obtain ⟨s', halone⟩ := recordAndCommit_none now hactive hjob expired (.error e)
        refine ⟨_, s', hrun halone, halone, ?_⟩
        constructor
        · intro hrec
          cases hrec.1
        · intro hseen
          -- the job was there at the start, so tables without it differ from those
          have hsome := congrArg (fun d => (d.jobs.find? job.uid).isSome) hseen.2.2
          simp only [find?_forgetOutcome_isSome, hjob, h.found] at hsome
          cases hsome
  · obtain ⟨e', halone⟩ := recordAndCommit_refused now job hactive expired (.error e)
    refine ⟨_, s, hrun halone, halone, ?_⟩
    constructor
    · intro hrec
      cases hrec.1
    · intro hseen
      exact absurd hseen.1 hactive

/-- A registered handler that raises leaves nothing of its rows: what is recorded depends on the
transaction alone. -/
theorem HandlerRaises.view_eq {cfg : Settings} {be : Backend} {now : Timestamp}
    {newUid : ℕ → String}
    {job : Job} {s₀ s : State Unit} {e : Exc} {expired : Bool}
    (h : HandlerRaises job (runHandler cfg be now newUid job.payload) s₀ e expired s)
    (hactive : (s.tx ()).status = .active) : expired = false ∧ s.view () = s₀.db := by
  have htriple : Triple jobSessions (Solo fun _ => True) () (Tracks s₀.db [] s₀.db)
      (runToOutcome job (runHandler cfg be now newUid job.payload))
      fun r s => ∀ e b, r = .ok (.error e, b) → b = false ∧ ∃ ds, Tracks s₀.db ds s₀.db s := by
    rw [runToOutcome_eq job (uses_unexpired now cfg be newUid job.payload)]
    refine Triple.bind solo_fits (fun _ s => Tracks s₀.db [] s₀.db s)
      ((Triple.statement _).conseq (fun _ _ h => h) fun r s _ h => ?_) fun _ => ?_
    · cases r with
      | ok a =>
          obtain ⟨d', hd', hs⟩ := h
          cases hd'
          exact hs
      | error e =>
          intro e' b he'
          cases he'
    · refine Triple.bind_attempt solo_fits
        (triple_runHandler (fun _ he => he) cfg job.payload s₀.db s₀.db) fun r => ?_
      intro s _ hs s' hi hr e b he
      cases he
      refine ⟨rfl, ?_⟩
      obtain ⟨ds, d', hd', hs⟩ := hs
      rw [eq_of_leaves_error hd'] at hs
      exact ⟨ds, stable_tracks s s' hi hr hs⟩
  have hall : AllMeet jobSessions (Solo fun _ => True) (fun _ r s => ∀ e b, r = .ok (.error e, b) →
      b = false ∧ ∃ ds, Tracks s₀.db ds s₀.db s)
      ⟨s₀, fun _ => runToOutcome job (runHandler cfg be now newUid job.payload)⟩ :=
    ⟨trivial, fun _ => htriple s₀ trivial (tracks_idle h.idle)⟩
  have hfits : (Solo fun _ => True : Contract Unit (State Unit)).Fits jobSessions := solo_fits
  have hend := (Run.allMeet hfits h.run hall).meets ()
  obtain ⟨hkept, ds, hs⟩ := hend s trivial (hfits.rely_refl () _) e expired rfl
  exact ⟨hkept, hs.view_eq hactive⟩

namespace Sample

/-- A handler that raises at once. -/
def boom : App JobResult := .raise (.value "boom")

/-- A job with one row of business info. -/
def infoJob : Job where
  uid := "j"
  status := .running
  payload := .businessInfo ⟨false, [{ spotExternalId := "camp-jiri-001" }]⟩
  createdBy := "u"

theorem nodup_infoJob : ([infoJob].map Job.uid).Nodup := List.nodup_singleton _

def oneInfoJob : Db := { Db.empty with jobs := ⟨[infoJob], nodup_infoJob⟩ }

theorem find?_oneInfoJob : oneInfoJob.jobs.find? "j" = some infoJob :=
  Table.find?_eq_some.2 ⟨List.mem_singleton_self _, rfl⟩

/-- The server gives up a statement that takes too long. -/
def timeout : Exc := .database "DBAPIError" "canceling statement due to statement timeout"

end Sample

/-- A step of the only session. -/
theorem step_only {s s' : State Unit} {α β : Type} {c : Command β} {k : Except Exc β → App α}
    {r : Except Exc β} (h : jobSessions.step () c s r s') :
    Step jobSessions ⟨s, fun _ => .call c k⟩ ⟨s', fun _ => k r⟩ := by
  have hupdate : Function.update (fun _ => .call c k : Unit → App α) () (k r) = fun _ => k r :=
    funext fun _ => rfl
  rw [← hupdate]
  exact .thread () c k r rfl h

/-- `set_config` on a fresh database. -/
theorem exists_audited (d : Db) (job : Job) (handler : App JobResult) :
    ∃ s : State Unit, s.db = d ∧ (s.tx ()).status = .active ∧ s.view () = d ∧
      Step jobSessions ⟨World.fresh d, fun _ => runToOutcome job handler⟩
        ⟨s, fun _ => handler.attemptNoting Command.expires false⟩ := by
  have hcall : runToOutcome job handler = .call (.sql (Stmt.read fun _ => ()))
      fun r => (Prog.ofExcept r).bind fun _ => handler.attemptNoting Command.expires false := rfl
  rw [hcall]
  exact ⟨_, rfl, rfl, rfl, step_only (r := .ok ()) (.inl rfl)⟩

/-- A handler that raises at once is recorded. -/
theorem failure_recorded_boom :
    ∃ s s', HandlerRaises Sample.infoJob Sample.boom (World.fresh Sample.oneInfoJob)
        (.value "boom") false s ∧
      runAlone (fun i => exec i) ()
        (recordAndCommit 0 Sample.infoJob false (.error (.value "boom")))
        s = some (.ok (), s') ∧ FailureRecorded "j" Sample.oneInfoJob s'.db := by
  obtain ⟨s, -, hactive, hview, hstep⟩ :=
    exists_audited Sample.oneInfoJob Sample.infoJob Sample.boom
  have h : HandlerRaises Sample.infoJob Sample.boom (World.fresh Sample.oneInfoJob) (.value "boom")
      false s := ⟨Sample.find?_oneInfoJob, rfl, rfl, by decide, .single hstep⟩
  obtain ⟨r, s', -, hrun, hiff⟩ := failure_recorded_iff 0 h
  obtain ⟨rfl, hrec⟩ := hiff.2 ⟨hactive, rfl, by rw [hview]; rfl⟩
  exact ⟨s, s', h, hrun, hrec⟩

/-- The mapping of a registered handler's rows is given up by the server, outside any savepoint:
`process_job` raises, and the job is not failed. -/
theorem failure_unrecorded :
    ∃ s e' s', HandlerRaises Sample.infoJob
        (runHandler Sample.settings Sample.backend 0 (fun _ => "n") Sample.infoJob.payload)
        (World.fresh Sample.oneInfoJob) Sample.timeout false s ∧
      runAlone (fun i => exec i) ()
        (recordAndCommit 0 Sample.infoJob false (.error Sample.timeout)) s =
        some (.error e', s') ∧ s'.db = Sample.oneInfoJob ∧
      ¬FailureRecorded "j" Sample.oneInfoJob s'.db := by
  obtain ⟨s₁, hdb, hactive, -, hstep⟩ := exists_audited Sample.oneInfoJob Sample.infoJob
    (runHandler Sample.settings Sample.backend 0 (fun _ => "n") Sample.infoJob.payload)
  have hrefused : Step jobSessions ⟨s₁, fun _ => (runHandler Sample.settings Sample.backend 0
      (fun _ => "n") Sample.infoJob.payload).attemptNoting Command.expires false⟩
      ⟨s₁.setStatus () .failed, fun _ => .ret (.error Sample.timeout, false)⟩ :=
    step_only (.inr (.server rfl rfl (by rw [hactive]; decide)))
  have hfailed : ((s₁.setStatus () .failed).tx ()).status ≠ .active := by
    simp [World.setStatus, World.setTx]
  obtain ⟨e', halone⟩ := recordAndCommit_refused 0 Sample.infoJob hfailed false
    (.error Sample.timeout)
  have hraises : HandlerRaises Sample.infoJob
      (runHandler Sample.settings Sample.backend 0 (fun _ => "n") Sample.infoJob.payload)
      (World.fresh Sample.oneInfoJob) Sample.timeout false (s₁.setStatus () .failed) :=
    ⟨Sample.find?_oneInfoJob, rfl, rfl, by decide,
      (Relation.ReflTransGen.single hstep).tail hrefused⟩
  refine ⟨_, e', _, hraises, halone, hdb, ?_⟩
  rintro ⟨⟨job, text, hjob, hstatus, -⟩, -⟩
  rw [show (s₁.setStatus () .failed).db = Sample.oneInfoJob from hdb] at hjob
  cases hjob
  cases hstatus

end Vivac
