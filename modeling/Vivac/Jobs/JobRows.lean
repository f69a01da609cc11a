import Vivac.Core.Contracts
import Vivac.Jobs.AllOrNothing
import Vivac.Lib.PendingWork
import Vivac.Workers.JobWorker

/-!
# The rows of jobs

What the statements do to the job under a uid, that they lock the rows they change, and that
the handlers leave jobs alone.
-/

set_option autoImplicit false

namespace Vivac

open Lib App

/-- The job under a key. -/
def jobUnder : RowKey → Db → Option Job
  | .job uid, d => d.jobs.find? uid
  | _, _ => none

/-- The job a change claims. -/
def Change.claimed? : Change → Option String
  | .claim uid => some uid
  | _ => none

/-- The job that is changed. -/
def Change.jobUid? : Change → Option String
  | .job uid => some uid
  | .claim uid => some uid
  | .orphan uid => some uid
  | _ => none

/-- The jobs that changes change. -/
def jobsChanged (changes : List Change) : List String := changes.filterMap Change.jobUid?

/-- Changes of no job claim none. -/
theorem claimed?_of_jobsChanged {changes : List Change} (h : jobsChanged changes = []) :
    changes.filterMap Change.claimed? = [] := by
  rw [jobsChanged, List.filterMap_eq_nil_iff] at h
  rw [List.filterMap_eq_nil_iff]
  intro ch hch
  have hnone := h ch hch
  cases ch with
  | claim uid => cases hnone
  | _ => rfl

/-- The job under a uid after an update of jobs. -/
theorem find?_rewriteJobs (uids : List String) (f : Rewrite Job.uid) (uid : String) (d : Db) :
    (rewriteJobs uids f d).jobs.find? uid =
      (d.jobs.find? uid).map fun j => if j.uid ∈ uids then (f.apply j).getD j else j := by
  unfold rewriteJobs
  rw [Table.find?_rewrite]
  simp only [decide_eq_true_eq]

theorem uid_of_find?_jobs {d : Db} {uid : String} {job : Job} (h : d.jobs.find? uid = some job) :
    job.uid = uid := (Table.find?_eq_some.1 h).2

/-- The uids that an update of one job hits. -/
theorem select_job_uids {d : Db} {uid u : String} :
    u ∈ (d.jobs.select fun j => j.uid == uid).map Job.uid ↔
      u = uid ∧ ∃ job, d.jobs.find? uid = some job := by
  constructor
  · intro hmem
    obtain ⟨job, hjob, rfl⟩ := List.mem_map.1 hmem
    obtain ⟨hrow, huid⟩ := Table.mem_select.1 hjob
    have huid : job.uid = uid := by simpa using huid
    exact ⟨huid, job, Table.find?_eq_some.2 ⟨hrow, huid⟩⟩
  · rintro ⟨rfl, job, hjob⟩
    obtain ⟨hrow, huid⟩ := Table.find?_eq_some.1 hjob
    exact List.mem_map.2 ⟨job, Table.mem_select.2 ⟨hrow, by simp [huid]⟩, huid⟩

theorem confined_rewriteJobs (uids : List String) (f : Rewrite Job.uid) :
    Confined jobUnder (uids.map RowKey.job) (rewriteJobs uids f) := by
  intro d k hk
  cases k with
  | job uid =>
      have hnot : uid ∉ uids := fun hmem => hk (List.mem_map_of_mem hmem)
      show (rewriteJobs uids f d).jobs.find? uid = d.jobs.find? uid
      rw [find?_rewriteJobs]
      cases h : d.jobs.find? uid with
      | none => rfl
      | some job => simp [uid_of_find?_jobs h, hnot]
  | _ => rfl

theorem confined_updateJobs (p : Job → Bool) (f : Rewrite Job.uid) :
    (updateJobs p f).Confined jobUnder := by
  intro locked d eff heff
  cases heff
  exact confined_rewriteJobs _ f

theorem confined_failOrphans (now : Timestamp) : (failOrphans now).Confined jobUnder := by
  intro locked d eff heff
  cases heff
  exact confined_rewriteJobs _ _

theorem confined_startJob (now : Timestamp) (uid : String) :
    (startJob now uid).Confined jobUnder := by
  intro locked d eff heff
  cases heff
  exact confined_rewriteJobs _ _

theorem confined_lockPending (uid : String) : (lockPending uid).Confined jobUnder := by
  intro locked d eff heff
  cases heff
  exact Confined.id jobUnder _

/-- What an insertion that the database does not refuse does. -/
theorem insertJob_eq_ok {job : Job} {locked : RowKey → Bool} {d : Db}
    {eff : Effect Db RowKey Change Unit} (h : insertJob job locked d = .ok eff) :
    eff = ⟨(), fun d => { d with jobs := d.jobs.insert job }, [.job job.uid], [.job job.uid]⟩ ∧
      d.jobs.find? job.uid = none := by
  simp only [insertJob] at h
  split at h
  · cases h
  · rename_i hnew
    split at h
    · cases h
    · cases h
      exact ⟨rfl, by simpa using hnew⟩

theorem confined_insertJob (job : Job) : (insertJob job).Confined jobUnder := by
  intro locked d eff heff
  obtain ⟨rfl, -⟩ := insertJob_eq_ok heff
  intro d' k hk
  cases k with
  | job uid =>
      apply Table.find?_insert_of_ne
      intro huid
      apply hk
      simp [huid]
  | _ => rfl

/-! ## Statements that leave jobs alone -/

/-- The effect changes no job, and locks none. -/
structure Spares {R : Type} (eff : Effect Db RowKey Change R) : Prop where
  write : ∀ d, (eff.write d).jobs = d.jobs
  locks : ∀ uid, RowKey.job uid ∉ eff.locks
  changes : jobsChanged eff.changes = []

/-- A statement whose effects leave jobs alone, and whose errors are `Exception`s. -/
structure SparesJobs {R : Type} (st : Statement R) : Prop where
  spares : ∀ locked d eff, st locked d = .ok eff → Spares eff
  ordinary : ∀ locked d e, st locked d = .error e → e.isException = true

/-- A command that leaves jobs alone. -/
def Command.SparesJobs : {β : Type} → Command β → Prop
  | _, .sql st => Vivac.SparesJobs st
  | _, _ => True

theorem SparesJobs.confined {R : Type} {st : Statement R} (h : SparesJobs st) :
    st.Confined jobUnder := by
  intro locked d eff heff d' k _
  cases k with
  | job uid =>
      show (eff.write d').jobs.find? uid = d'.jobs.find? uid
      rw [(h.spares locked d eff heff).write]
  | _ => rfl

theorem Command.SparesJobs.confined {β : Type} {c : Command β} (h : Command.SparesJobs c) :
    c.Confined jobUnder := by
  cases c with
  | sql st => exact Vivac.SparesJobs.confined h
  | _ => trivial

theorem sparesJobs_read {R : Type} (f : Db → R) : SparesJobs (Stmt.read f : Statement R) where
  spares locked d eff heff := by
    cases heff
    exact ⟨fun _ => rfl, by simp, rfl⟩
  ordinary locked d e he := by cases he

theorem spares_updateSpots {be : Backend} {p : Spot → Bool} {f : Rewrite Spot.uid}
    {columns : List String} {locked : RowKey → Bool} {d : Db}
    {eff : Effect Db RowKey Change (List String)}
    (h : updateSpots be p f columns locked d = .ok eff) : Spares eff := by
  simp only [updateSpots] at h
  split at h
  · cases h
  · cases h
    refine ⟨fun _ => rfl, by simp, ?_⟩
    simp [jobsChanged, Change.jobUid?]

theorem sparesJobs_insertOnConflict (be : Backend) (now : Timestamp) (uid : String)
    (row : SpotBulkRow) : SparesJobs (insertOnConflict be now uid row) where
  spares locked d eff heff := by
    simp only [insertOnConflict] at heff
    split at heff
    · cases heff
    · split at heff
      · cases heff
      · split at heff
        · exact spares_updateSpots heff
        · split at heff
          · cases heff
          · cases heff
            refine ⟨fun _ => rfl, ?_, by simp [jobsChanged, Change.jobUid?]⟩
            intro u hu
            simp only [SpotBulkRow.sourceLock] at hu
            split at hu <;> simp at hu
  ordinary locked d e he := isException_insertOnConflict he

theorem sparesJobs_updateInfoRow (be : Backend) (now : Timestamp) (uid : String)
    (fields : List InfoAttr) : SparesJobs (updateInfoRow be now uid fields) where
  spares locked d eff heff := by
    simp only [updateInfoRow] at heff
    split at heff
    · cases heff
      exact ⟨fun _ => rfl, by simp, rfl⟩
    · split at heff
      · cases heff
      · cases heff
        exact ⟨fun _ => rfl, by simp, by simp [jobsChanged, Change.jobUid?]⟩
  ordinary locked d e he := by
    simp only [updateInfoRow] at he
    split at he
    · cases he
    · split at he
      · cases he
        rfl
      · cases he

theorem sparesJobs_insertInfoRow (be : Backend) (r : SpotBusinessInfo) :
    SparesJobs (insertInfoRow be r) where
  spares locked d eff heff := by
    simp only [insertInfoRow] at heff
    split at heff
    · cases heff
    · split at heff
      · cases heff
      · split at heff
        · cases heff
        · split at heff
          · cases heff
          · cases heff
            exact ⟨fun _ => rfl, by simp, by simp [jobsChanged, Change.jobUid?]⟩
  ordinary locked d e he := by
    simp only [insertInfoRow] at he
    split at he
    · cases he
      rfl
    · split at he
      · cases he
        rfl
      · split at he
        · cases he
          rfl
        · split at he
          · cases he
            rfl
          · cases he

/-! ## The handlers -/

section Handlers

section Bulk

variable {ok : ∀ {β : Type}, Command β → Prop} (h : AdmitsSavepoints ok)
include h

/-- The bulk loop issues what its rows issue, and savepoints. -/
theorem AdmitsSavepoints.bulkRows {ρ β : Type} {upsertRow : ℕ → ρ → App β}
    (hrow : ∀ index row, (upsertRow index row).Uses ok) (rows : List ρ) :
    ∀ (index : ℕ) (p : BulkProgress β), (bulkRows upsertRow index rows p).Uses ok := by
  induction rows with
  | nil => intro index p; trivial
  | cons row rows ih =>
      intro index p
      apply (Prog.uses_perform h.savepoint).bind
      intro _
      apply (hrow index row).attempt.bind
      intro r
      cases r with
      | ok b => exact (Prog.uses_perform h.release).bind fun _ => ih _ _
      | error e =>
          dsimp only
          split
          · exact (Prog.uses_perform h.rollbackTo).bind fun _ => ih _ _
          · trivial

theorem AdmitsSavepoints.bulkUpsert {ρ β : Type} {upsertRow : ℕ → ρ → App β}
    (hrow : ∀ index row, (upsertRow index row).Uses ok) (dryRun : Bool) (rows : List ρ)
    {applied : List β → App Unit} (happlied : ∀ bs, (applied bs).Uses ok) :
    (bulkUpsert upsertRow dryRun rows applied).Uses ok := by
  apply (Prog.uses_perform h.savepoint).bind
  intro _
  apply (h.bulkRows hrow rows 0 {}).bind
  intro p
  apply Prog.Uses.bind
  · unfold leaveOuter
    split
    · exact Prog.uses_perform h.rollbackTo
    · exact (Prog.uses_perform h.release).bind fun _ => happlied _
  · exact fun _ => by trivial

/-- The handler of business info issues the two statements that write it. -/
theorem AdmitsSavepoints.businessInfoHandler (be : Backend) (now : Timestamp) (newUid : ℕ → String)
    (hupdate : ∀ uid fields, ok (.sql (updateInfoRow be now uid fields) : Command Bool))
    (hinsert : ∀ r, ok (.sql (insertInfoRow be r) : Command Unit))
    (request : SpotBusinessInfoBulkRequest) :
    (spotBusinessInfoBulkUpsertHandler be now newUid request).Uses ok := by
  apply Prog.Uses.bind
  · unfold buildExternalIdMapping
    split
    · trivial
    · exact h.select _
  · intro mapping
    apply h.bulkUpsert _ _ _ fun _ => by trivial
    intro index row
    apply (Prog.uses_ofExcept _).bind
    intro spotUid
    apply h.read_bind
    intro found
    apply (Prog.uses_ofExcept _).bind
    intro existing
    cases existing with
    | some existing =>
        dsimp only
        split
        · trivial
        · apply (Prog.uses_perform (hupdate _ _)).bind
          intro matched
          split <;> trivial
    | none => exact Prog.uses_perform (hinsert _)

/-- The handlers issue the statements that write spots and business info, and no end of a
transaction. -/
theorem AdmitsSavepoints.runHandler (cfg : Settings) (be : Backend) (now : Timestamp)
    (newUid : ℕ → String)
    (hspot : ∀ uid row, ok (.sql (insertOnConflict be now uid row) :
      Command (List String)))
    (hupdate : ∀ uid fields, ok (.sql (updateInfoRow be now uid fields) : Command Bool))
    (hinsert : ∀ r, ok (.sql (insertInfoRow be r) : Command Unit)) (payload : JobPayload) :
    (Vivac.runHandler cfg be now newUid payload).Uses ok := by
  cases payload with
  | spots request =>
      apply Prog.Uses.bind _ fun _ => by trivial
      apply h.bulkUpsert
      · intro index row
        apply (Prog.uses_perform (hspot _ _)).bind
        exact fun _ => by trivial
      · intro uids
        apply (h.bump cfg _).bind
        exact fun _ => Admits.forEach (fun uid => h.bump cfg _) _
  | businessInfo request =>
      apply Prog.Uses.bind _ fun _ => by trivial
      exact h.businessInfoHandler be now newUid hupdate hinsert request
  | dbDump =>
      apply (Prog.uses_ofExcept _).bind
      exact fun _ => by trivial

end Bulk

section Propagates

/-- `tryExcept` hands a cancellation on. -/
theorem propagates_tryExcept {α : Type} {p : App α} {h : Exc → App α}
    (hp : p.Propagates fun e => e.isException = true)
    (hh : ∀ e, (h e).Propagates fun e => e.isException = true) :
    (tryExcept p h).Propagates fun e => e.isException = true := by
  apply hp.attempt_bind
  · intro r hr
    cases r with
    | ok a => trivial
    | error e =>
        simp only [hr e rfl, if_true]
        exact hh e
  · intro e he
    simp [he]

theorem propagates_bump (cfg : Settings) (key : String) :
    (Cache.bump cfg key).Propagates fun e => e.isException = true := by
  unfold Cache.bump
  split
  · exact propagates_tryExcept (Prog.propagates_perform _) fun _ => by trivial
  · trivial

theorem propagates_forEach {β : Type} {f : β → App Unit}
    (h : ∀ x, (f x).Propagates fun e => e.isException = true) (xs : List β) :
    (forEach f xs).Propagates fun e => e.isException = true := by
  induction xs with
  | nil => trivial
  | cons x xs ih => exact (h x).bind fun _ => ih

theorem propagates_bulkRows {ρ β : Type} {upsertRow : ℕ → ρ → App β}
    (h : ∀ index row, (upsertRow index row).Propagates fun e => e.isException = true)
    (rows : List ρ) : ∀ (index : ℕ) (p : BulkProgress β),
      (bulkRows upsertRow index rows p).Propagates fun e => e.isException = true := by
  induction rows with
  | nil => intro index p; trivial
  | cons row rows ih =>
      intro index p
      apply (Prog.propagates_perform _).bind
      intro _
      apply (h index row).attempt_bind
      · intro r hr
        cases r with
        | ok b => exact (Prog.propagates_perform _).bind fun _ => ih _ _
        | error e =>
            simp only [hr e rfl, if_true]
            exact (Prog.propagates_perform _).bind fun _ => ih _ _
      · intro e he
        simp [he]

theorem propagates_bulkUpsert {ρ β : Type} {upsertRow : ℕ → ρ → App β}
    (h : ∀ index row, (upsertRow index row).Propagates fun e => e.isException = true)
    (dryRun : Bool) (rows : List ρ) {applied : List β → App Unit}
    (happlied : ∀ bs, (applied bs).Propagates fun e => e.isException = true) :
    (bulkUpsert upsertRow dryRun rows applied).Propagates fun e => e.isException = true := by
  apply (Prog.propagates_perform _).bind
  intro _
  apply (propagates_bulkRows h rows 0 {}).bind
  intro p
  apply Prog.Propagates.bind
  · unfold leaveOuter
    split
    · exact Prog.propagates_perform _
    · exact (Prog.propagates_perform _).bind fun _ => happlied _
  · exact fun _ => by trivial

theorem isException_scalarOneOrNone {α : Type} {xs : List α} {e : Exc}
    (h : scalarOneOrNone xs = .error e) : e.isException = true := by
  simp only [scalarOneOrNone] at h
  split at h <;> cases h
  rfl

/-- A handler hands a cancellation on as it is, when the dump of the database is not cancelled. -/
theorem propagates_runHandler (cfg : Settings) {be : Backend} {now : Timestamp}
    (newUid : ℕ → String)
    (hdump : ∀ e, be.dumpDatabase now = .error e → e.isException = true) (payload : JobPayload) :
    (runHandler cfg be now newUid payload).Propagates fun e => e.isException = true := by
  cases payload with
  | spots request =>
      apply Prog.Propagates.bind _ fun _ => by trivial
      apply propagates_bulkUpsert
      · intro index row
        exact (Prog.propagates_perform _).bind fun _ => by trivial
      · intro uids
        apply (propagates_bump cfg _).bind
        exact fun _ => propagates_forEach (fun uid => propagates_bump cfg _) _
  | businessInfo request =>
      apply Prog.Propagates.bind _ fun _ => by trivial
      apply Prog.Propagates.bind
      · unfold buildExternalIdMapping
        split
        · trivial
        · exact Prog.propagates_perform _
      · intro mapping
        apply propagates_bulkUpsert _ _ _ fun _ => by trivial
        intro index row
        apply (Prog.propagates_ofExcept fun e => isException_resolveExternalId).bind
        intro spotUid
        apply (Prog.propagates_perform _).bind
        intro found
        apply (Prog.propagates_ofExcept fun e => isException_scalarOneOrNone).bind
        intro existing
        cases existing with
        | some existing =>
            dsimp only
            split
            · trivial
            · apply (Prog.propagates_perform _).bind
              intro matched
              split
              · trivial
              · rfl
        | none => exact Prog.propagates_perform _
  | dbDump =>
      apply (Prog.propagates_ofExcept hdump).bind
      exact fun _ => by trivial

end Propagates

theorem admits_sparesJobs : AdmitsSavepoints Command.SparesJobs where
  read := sparesJobs_read
  incr _ := trivial
  savepoint := trivial
  release := trivial
  rollbackTo := trivial

/-- The handler of every job leaves jobs alone. -/
theorem uses_runHandler (cfg : Settings) (be : Backend) (now : Timestamp) (newUid : ℕ → String)
    (payload : JobPayload) :
    (runHandler cfg be now newUid payload).Uses Command.SparesJobs :=
  admits_sparesJobs.runHandler cfg be now newUid (sparesJobs_insertOnConflict be now)
    (sparesJobs_updateInfoRow be now) (sparesJobs_insertInfoRow be) payload

end Handlers

end Vivac
