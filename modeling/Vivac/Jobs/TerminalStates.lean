import Vivac.Jobs.OutcomeWork

/-!
# Terminal states are final, as long as no worker is overtaken by a clean-up

A worker writes its outcome whatever the row says by then, so a job that the clean-up of a
starting instance has failed meanwhile becomes a succeeded one with an error
(`terminal_states_overwritten`). Nothing else writes to a finished job: claims take pending jobs,
clean-ups fail running ones, and a job is in the hands of one worker at a time. So where no worker
commits the outcome of a job that a clean-up has failed while the worker had it in hand, and no
handler is cancelled away from the database, a finished job stays as it is, and every job row is
consistent (`terminal_states_final`).
-/

set_option autoImplicit false

namespace Vivac

open Lib App

/-- Some clean-up has failed the job. -/
def Orphaned {ι : Type} (uid : String) (commits : ι → List (List Change)) : Prop :=
  ∃ j, Change.orphan uid ∈ (commits j).flatten

/-- Process `i` commits no outcome of a job that it has in hand and that a clean-up has failed. -/
def NotOvertaken {ι : Type} [DecidableEq ι] (i : ι) (s s' : State ι) : Prop :=
  ∀ uid ∈ inHand (s.commits i), Orphaned uid s.commits → uid ∈ inHand (s'.commits i)

/-- The workers of all processes, none of which is overtaken by a clean-up, and which are
cancelled at commands of the database only. -/
abbrev orderlyWorkers (ι : Type) [DecidableEq ι] : System ι Exc Command (State ι) :=
  (calmWorkers ι).guarded NotOvertaken

/-- Job rows are in order, and what a process has in hand runs, unless a clean-up has failed it. -/
structure JobsInOrder {ι : Type} (d : Db) (commits : ι → List (List Change)) : Prop where
  wellKept : AllWellKept d
  hands : ∀ i, ∀ uid ∈ inHand (commits i), Orphaned uid commits ∨ IsRunning uid d

/-- The rows of finished jobs stay as they are. -/
def KeepsFinished (d d' : Db) : Prop :=
  ∀ uid job, d.jobs.find? uid = some job → job.isFinished = true → d'.jobs.find? uid = some job

/-! ## One commit -/

section Commit

variable {ι : Type} [DecidableEq ι] {i : ι} {d : Db} {commits : ι → List (List Change)}
  {w : Work Db RowKey Change}

theorem Orphaned.update {uid : String} {chs : List Change} (h : Orphaned uid commits) :
    Orphaned uid (Function.update commits i (commits i ++ [chs])) := by
  obtain ⟨j, hj⟩ := h
  refine ⟨j, ?_⟩
  by_cases hij : j = i
  · subst hij
    simp [List.mem_flatten.1 hj]
  · rw [Function.update_of_ne hij]
    exact hj

theorem orphaned_of_mem {uid : String} {chs : List Change} (h : Change.orphan uid ∈ chs) :
    Orphaned uid (Function.update commits i (commits i ++ [chs])) := by
  refine ⟨i, ?_⟩
  rw [Function.update_self, List.flatten_append]
  simp [h]

omit [DecidableEq ι] in
/-- What a commit changes was not finished: it was pending, or running, or absent. -/
theorem JobsInOrder.unfinished (h : JobsInOrder d commits) (hclaim : ClaimWork d w)
    (hwork : OutcomeWork (commits i) d w)
    (hnot : ∀ uid ∈ inHand (commits i), Orphaned uid commits →
      uid ∈ w.changes.foldl handAfter (inHand (commits i))) :
    ∀ uid ∈ jobsChanged w.changes, Unfinished uid d := by
  intro uid huid
  have hclaimed : Change.claim uid ∈ w.changes → Unfinished uid d := fun hmem =>
    (hclaim.claims uid (List.mem_filterMap.2 ⟨_, hmem, rfl⟩)).2.1.unfinished
  obtain ⟨ch, hch, hkey⟩ := List.mem_filterMap.1 huid
  cases ch with
  | claim v =>
      cases hkey
      exact hclaimed hch
  | orphan v =>
      cases hkey
      exact (hwork.orphans uid hch).2.unfinished
  | job v =>
      cases hkey
      rcases hwork.outcomes uid hch with ⟨-, hnone⟩ | hheld
      · intro job hjob
        cases hnone.symm.trans hjob
      · rcases h.hands i uid hheld with horphaned | hrunning
        · -- an outcome takes the job out of the hand, so the work must claim it anew
          rcases mem_handAfter (hnot uid hheld horphaned) with hmem | ⟨-, hgone⟩
          · exact hclaimed hmem
          · exact absurd hch hgone
        · exact hrunning.unfinished
  | _ => cases hkey

omit [DecidableEq ι] in
/-- A running job still runs after a commit, unless this fails it as an orphan or records its
outcome. -/
theorem OutcomeWork.running (hwork : OutcomeWork (commits i) d w) {uid : String}
    (hrunning : IsRunning uid d) (hjob : Change.job uid ∉ w.changes) :
    Change.orphan uid ∈ w.changes ∨ IsRunning uid (w.write d) := by
  by_cases huid : uid ∈ jobsChanged w.changes
  · obtain ⟨ch, hch, hkey⟩ := List.mem_filterMap.1 huid
    cases ch with
    | claim v =>
        cases hkey
        obtain ⟨job, hrow, -⟩ := hrunning
        exact .inr (hwork.starts uid hch d ⟨job, hrow⟩)
    | orphan v =>
        cases hkey
        exact .inl hch
    | job v =>
        cases hkey
        exact absurd hch hjob
    | _ => cases hkey
  · exact .inr (hrunning.congr (hwork.frame d uid huid))

/-- A commit that overtakes nobody keeps job rows in order, and finished ones as they are. -/
theorem JobsInOrder.commit (h : JobsInOrder d commits) (honce : ClaimsOnce d commits)
    (hclaim : ClaimWork d w) (hwork : OutcomeWork (commits i) d w)
    (hnot : ∀ uid ∈ inHand (commits i), Orphaned uid commits →
      uid ∈ w.changes.foldl handAfter (inHand (commits i))) :
    JobsInOrder (w.write d) (Function.update commits i (commits i ++ [w.changes])) ∧
      KeepsFinished d (w.write d) := by
  have hunfinished := h.unfinished hclaim hwork hnot
  have hstays : ∀ j, ∀ uid ∈ inHand (commits j), Change.job uid ∉ w.changes →
      Orphaned uid (Function.update commits i (commits i ++ [w.changes])) ∨
        IsRunning uid (w.write d) := by
    intro j uid hheld hjob
    rcases h.hands j uid hheld with horphaned | hrunning
    · exact .inl horphaned.update
    · exact (hwork.running hrunning hjob).imp orphaned_of_mem id
  refine ⟨⟨hwork.keeps d hunfinished h.wellKept, fun j uid hheld => ?_⟩, ?_⟩
  · by_cases hj : j = i
    · subst hj
      rw [Function.update_self, inHand_concat] at hheld
      rcases mem_handAfter hheld with hmem | ⟨hold, hjob⟩
      · obtain ⟨-, ⟨job, hrow, -⟩, -⟩ := hclaim.claims uid (List.mem_filterMap.2 ⟨_, hmem, rfl⟩)
        exact .inr (hwork.starts uid hmem d ⟨job, hrow⟩)
      · exact hstays j uid hold hjob
    · rw [Function.update_of_ne hj] at hheld
      by_cases hjob : Change.job uid ∈ w.changes
      · rcases hwork.outcomes uid hjob with ⟨-, hnone⟩ | hown
        · rcases h.hands j uid hheld with horphaned | ⟨job, hrow, -⟩
          · exact .inl horphaned.update
          · cases hnone.symm.trans hrow
        · -- a job is in one hand only
          exact absurd (claimed_of_inHand hown)
            (honce.disjoint j i hj uid (claimed_of_inHand hheld))
      · exact hstays j uid hheld hjob
  · intro uid job hrow hfinished
    have huntouched : uid ∉ jobsChanged w.changes := by
      intro huid
      rw [hunfinished uid huid job hrow] at hfinished
      cases hfinished
    rw [hwork.frame d uid huntouched]
    exact hrow

end Commit

/-! ## The phases -/

section Phases

variable {ι : Type} [DecidableEq ι] {i : ι}

/-- A process enters the phase that runs a handler with the job in hand. -/
def MayProcess (i : ι) (_before : List Phase) (φ : Phase) (s : State ι) : Prop :=
  ∀ uid, φ.processed? = some uid → uid ∈ inHand (s.commits i)

/-- The end of a session of which only the commits matter, and the phase after it. -/
theorem triple_thenIdle {α : Type} {P : State ι → Prop} {before : List Phase} {p : App α}
    {φ : Phase} (hp : Triple (calmWorkers ι) (outcomeTerms ι).contract i P p
      (Returns fun _ _ => True)) (hφ : φ.processed? = none) :
    Triple (calmWorkers ι) (outcomeTerms ι).contract i P (p.bind fun _ => .ret φ)
      (Returns (MayProcess i before)) := by
  apply Triple.bind_returns outcomeTerms_fits _ hp
  intro _ s _ _ _ _ _ uid huid
  cases hφ.symm.trans huid

/-- The end of a cycle. -/
theorem triple_cycleEnd {α : Type} {P : State ι → Prop} {N : α → State ι → Prop}
    {before : List Phase} {p : App α} {next : α → Phase}
    (hp : Triple (calmWorkers ι) (outcomeTerms ι).contract i P p (Returns N))
    (hN : ∀ a, Stable (outcomeTerms ι).contract i (N a))
    (hnext : ∀ a s, N a s → MayProcess i before (next a) s) :
    Triple (calmWorkers ι) (outcomeTerms ι).contract i P (p.attempt.bind (nextCycle next))
      (Returns (MayProcess i before)) := by
  apply Triple.bind_attempt outcomeTerms_fits hp
  intro r
  cases r with
  | ok a => exact Triple.ret_returns (hN a) fun s _ h => hnext a s h
  | error e =>
      simp only [nextCycle]
      split
      · intro s _ _ _ _ _ uid huid
        cases huid
      · exact Triple.raise_returns

/-- Every phase hands over to one the process may enter. -/
theorem triple_outcomePhase (cfg : Settings) {be : Backend} {now : Timestamp}
    (newUid : ℕ → String)
    (hdump : ∀ e, be.dumpDatabase now = .error e → e.isException = true) (before : List Phase)
    (φ : Phase) :
    Triple (calmWorkers ι) (outcomeTerms ι).contract i (MayProcess i before φ)
      (phaseProgram cfg be now newUid φ) (Returns (MayProcess i (before ++ [φ]))) := by
  cases φ with
  | boot =>
      apply triple_thenIdle _ rfl
      exact (triple_lastSession (triple_cleanup now)).conseq (fun _ _ _ => by simp) fun _ _ _ h => h
  | claim =>
      -- a job that the claim answers is in hand, and the rollback at the end leaves it there
      have hstable : ∀ found : Option Job, Stable (outcomeTerms ι).contract i
          fun s => ∀ job ∈ found, Working i [job.uid] s :=
        fun _ s s' hi hr h job hjob => stable_working s s' hi hr (h job hjob)
      have hclose : ∀ found : Option Job, Triple (calmWorkers ι) (outcomeTerms ι).contract i
          (fun s => ∀ job ∈ found, Working i [job.uid] s) (Prog.perform .rollback : App Unit)
          (Returns fun _ s => ∀ job ∈ found, Working i [job.uid] s) := by
        intro found
        refine (triple_writesNoJob (hstable found) (fun hc h hs job hjob => (h job hjob).step hc hs)
          (uses_plain (by exact trivial))).conseq (fun _ _ h => h) fun r _ _ h => ?_
        cases r with
        | ok _ => exact h
        | error e => trivial
      have hsession := triple_pooledSession (triple_claim (i := i) now) hclose hstable
      refine (triple_cycleEnd hsession hstable fun found s h uid huid => ?_).conseq
        (fun _ _ _ => by simp) fun _ _ _ h => h
      cases found with
      | none => cases huid
      | some job =>
          cases huid
          exact (h job rfl).2 job.uid (List.mem_singleton_self _)
  | process uid =>
      have hsession :=
          triple_lastSession (triple_processClaimed_outcome (i := i) cfg newUid hdump uid)
      refine (triple_cycleEnd hsession (fun _ _ _ _ _ h => h) fun _ s _ v hv => ?_).conseq
        (fun s _ h v hv => ?_) fun _ _ _ h => h
      · cases hv
      · obtain rfl := List.mem_singleton.1 hv
        exact h v rfl
  | enqueue uid payload staffUid =>
      apply triple_thenIdle _ rfl
      exact (triple_lastSession (triple_enqueue now uid payload staffUid)).conseq
        (fun _ _ _ => by simp) fun _ _ _ h => h
  | done =>
      intro s _ _ _ _ _ uid huid
      cases huid

end Phases

/-! ## Runs -/

section Runs

variable {ι : Type} [DecidableEq ι] {p p' : Pool ι Phase Exc Command (State ι)}

/-- Every job is claimed once, every process meets the contract of its phase, and the committed
jobs are in order. -/
structure OrderlyInvariant (p : Pool ι Phase Exc Command (State ι)) : Prop where
  once : PoolInvariant (fun e => e.isException = true) p
  phases : PhasesMeet (calmWorkers ι) (outcomeTerms ι).contract MayProcess p
  jobs : JobsInOrder p.config.state.db p.config.state.commits

theorem AtStart.orderly (h : AtStart p) (hrows : AllWellKept p.config.state.db) :
    OrderlyInvariant p := by
  refine ⟨h.poolInvariant, ⟨⟨locksHold_of_idle h.idle, WorkLaw.kept_of_idle h.idle, trivial⟩,
    fun i => ?_⟩, hrows, fun i uid huid => ?_⟩
  · obtain ⟨φ, hentry, hφ⟩ := h.entry i
    rw [hφ]
    intro s' _ _ uid huid
    cases φ with
    | process _ => cases hentry
    | _ => cases huid
  · simp [World.commits, h.trace, inHand] at huid

/-- A step of a worker that overtakes nobody keeps job rows in order, and finished ones as they
are. -/
theorem JobsInOrder.step {i : ι} {s s' : State ι} {β : Type} {c : Command β} {r : Except Exc β}
    (h : JobsInOrder s.db s.commits) (honce : (claimTerms ι).contract.Inv s)
    (hwork : (outcomeTerms ι).contract.Inv s) (hs : (orderlyWorkers ι).step i c s r s') :
    JobsInOrder s'.db s'.commits ∧ KeepsFinished s.db s'.db := by
  obtain ⟨hran, hnot⟩ := hs
  have hothers : ∀ j, j ≠ i → s'.commits j = s.commits j := fun j hj =>
    (transacting_workers.others hran hj).commits
  cases transacting_workers.publishes hran with
  | quiet hdb hcommits =>
      have hsame : s'.commits = s.commits := by
        funext j
        by_cases hj : j = i
        · rw [hj, hcommits]
        · exact hothers j hj
      rw [hdb, hsame]
      exact ⟨h, fun _ _ hjob _ => hjob⟩
  | commit _ hdb hcommits _ =>
      have hupdate : s'.commits =
          Function.update s.commits i (s.commits i ++ [(s.tx i).work.changes]) := by
        funext j
        by_cases hj : j = i
        · subst hj
          rw [hcommits, Function.update_self]
        · rw [hothers j hj, Function.update_of_ne hj]
      rw [hdb, hupdate]
      apply h.commit honce.2.2 (honce.2.1 i _ (List.mem_cons_self ..))
        (hwork.2.1 i _ (List.mem_cons_self ..))
      intro uid huid horphaned
      have hkept := hnot uid huid horphaned
      rwa [hcommits, inHand_concat] at hkept

/-- One move keeps the invariant and the rows of finished jobs. -/
theorem OrderlyInvariant.move {cfg : Settings} {be : Backend} {now : ι → ℕ → Timestamp}
    {newUid : ι → ℕ → ℕ → String} (h : OrderlyInvariant p)
    (hdump : ∀ t e, be.dumpDatabase t = .error e → e.isException = true)
    (hmove : Move (orderlyWorkers ι) (processes cfg be now newUid) p p') :
    OrderlyInvariant p' ∧ KeepsFinished p.config.state.db p'.config.state.db := by
  have honce := (h.once.move hmove.of_guarded).1
  have hphases := h.phases.move outcomeTerms_fits (fun i n before φ =>
    triple_outcomePhase cfg (newUid i n) (hdump (now i n)) before φ) hmove.of_guarded
  have hjobs : JobsInOrder p'.config.state.db p'.config.state.commits ∧
      KeepsFinished p.config.state.db p'.config.state.db := by
    cases hmove with
    | step hstep =>
        cases hstep with
        | thread i cmd k r hcall hs => exact h.jobs.step h.once.phases.inv h.phases.inv hs
        | @env s' henv =>
            have hsame : s'.commits = p.config.state.commits := funext fun _ => Env.commits_eq henv
            show JobsInOrder s'.db s'.commits ∧ KeepsFinished _ s'.db
            rw [Env.db_eq henv, hsame]
            exact ⟨h.jobs, fun _ _ hjob _ => hjob⟩
    | turn j φ hφ => exact ⟨h.jobs, fun _ _ hjob _ => hjob⟩
  exact ⟨⟨honce, hphases, hjobs.1⟩, hjobs.2⟩

/-- Every run keeps the invariant and the rows of finished jobs. -/
theorem OrderlyInvariant.moves {cfg : Settings} {be : Backend} {now : ι → ℕ → Timestamp}
    {newUid : ι → ℕ → ℕ → String} (h : OrderlyInvariant p)
    (hdump : ∀ t e, be.dumpDatabase t = .error e → e.isException = true)
    (hmoves : Moves (orderlyWorkers ι) (processes cfg be now newUid) p p') :
    OrderlyInvariant p' ∧ KeepsFinished p.config.state.db p'.config.state.db := by
  induction hmoves with
  | refl => exact ⟨h, fun _ _ hjob _ => hjob⟩
  | tail _ hmove ih =>
      obtain ⟨hinv, hkept⟩ := ih
      obtain ⟨hinv', hstep⟩ := hinv.move hdump hmove
      exact ⟨hinv', fun uid job hjob hfin => hstep uid job (hkept uid job hjob hfin) hfin⟩

end Runs

/-- In every run in which no worker commits the outcome of a job that a clean-up has failed while
the worker had it in hand, and no handler is cancelled away from the database: job rows are
consistent in every committed state, and the row of a finished job stays as it is. -/
theorem terminal_states_final {ι : Type} [DecidableEq ι] (cfg : Settings) (be : Backend)
    (now : ι → ℕ → Timestamp) (newUid : ι → ℕ → ℕ → String)
    (hdump : ∀ t e, be.dumpDatabase t = .error e → e.isException = true)
    {p₀ p : Pool ι Phase Exc Command (State ι)} (h₀ : AtStart p₀)
    (hrows : AllWellKept p₀.config.state.db)
    (h : Moves (orderlyWorkers ι) (processes cfg be now newUid) p₀ p) :
    (∀ job ∈ p.config.state.db.jobs.rows, job.Consistent) ∧
    ∀ p', Moves (orderlyWorkers ι) (processes cfg be now newUid) p p' → ∀ uid job,
      p.config.state.db.jobs.find? uid = some job → job.isFinished = true →
      p'.config.state.db.jobs.find? uid = some job := by
  have hinv := ((h₀.orderly hrows).moves hdump h).1
  refine ⟨fun job hjob => (hinv.jobs.wellKept job hjob).toConsistent, fun p' h' => ?_⟩
  exact (hinv.moves hdump h').2

instance decidableOrphaned {ι : Type} [Fintype ι] (uid : String)
    (commits : ι → List (List Change)) : Decidable (Orphaned uid commits) :=
  inferInstanceAs (Decidable (∃ j, Change.orphan uid ∈ (commits j).flatten))

instance decidableNotOvertaken {ι : Type} [DecidableEq ι] [Fintype ι] (i : ι) (s s' : State ι) :
    Decidable (NotOvertaken i s s') :=
  inferInstanceAs (Decidable (∀ uid ∈ inHand (s.commits i), Orphaned uid s.commits →
    uid ∈ inHand (s'.commits i)))

/-- Two instances, one of which runs the job to its end: it has succeeded, and stays so. -/
theorem terminal_states_final_two :
    ∃ p, Moves (orderlyWorkers Bool) Sample.instances (Sample.twoInstances Sample.onePending) p ∧
      (p.config.state.db.jobs.find? "j").map Job.status = some .succeeded ∧
      (∀ job ∈ p.config.state.db.jobs.rows, job.Consistent) ∧
      ∀ p', Moves (orderlyWorkers Bool) Sample.instances p p' → ∀ uid job,
        p.config.state.db.jobs.find? uid = some job → job.isFinished = true →
        p'.config.state.db.jobs.find? uid = some job := by
  have hrun : (((Sample.twoInstances Sample.onePending).follow
      (guardExec (fun i => exec i) NotOvertaken) Sample.instances
      (List.replicate 5 false ++ List.replicate 27 true)).bind fun p =>
        if (p.config.state.db.jobs.find? "j").map Job.status = some .succeeded then some ()
        else none) = some () := by
    decide +kernel
  obtain ⟨p, hfollow, h⟩ := Option.bind_eq_some_iff.1 hrun
  split at h
  · rename_i hsucceeded
    have hmoves : Moves (orderlyWorkers Bool) Sample.instances
        (Sample.twoInstances Sample.onePending) p := guarded_moves_of_schedule hfollow
    have hrows : AllWellKept (Sample.twoInstances Sample.onePending).config.state.db := by
      intro job hjob
      obtain rfl : job = { Sample.runningJob with status := .pending } := List.mem_singleton.1 hjob
      exact ⟨⟨fun _ => rfl, fun _ => rfl, by decide⟩, fun _ => ⟨rfl, rfl⟩⟩
    have hdump : ∀ t e, Sample.backend.dumpDatabase t = .error e → e.isException = true := by
      intro t e he
      cases he
    exact ⟨p, hmoves, hsucceeded, terminal_states_final Sample.settings Sample.backend
      (fun _ _ => 0) (fun _ _ _ => "n") hdump (Sample.atStart_twoInstances _) hrows hmoves⟩
  · cases h

/-- An instance starts while another one's worker has the job, and fails it; the worker makes it
a succeeded job with an error. -/
theorem terminal_states_overwritten :
    ∃ p p', Moves (faultyWorkers Bool fun e => e.isException = true) Sample.instances
        (Sample.twoInstances Sample.onePending) p ∧
      Moves (faultyWorkers Bool fun e => e.isException = true) Sample.instances p p' ∧
      (p.config.state.db.jobs.find? "j").map Job.status = some .failed ∧
      (p'.config.state.db.jobs.find? "j").map Job.status = some .succeeded ∧
      (p'.config.state.db.jobs.find? "j").bind Job.error = some "orphaned" := by
  have hrun : (((Sample.twoInstances Sample.onePending).follow (fun i => exec i) Sample.instances
      (List.replicate 16 true ++ List.replicate 5 false)).bind fun p =>
        (p.follow (fun i => exec i) Sample.instances (List.replicate 11 true)).bind fun p' =>
          if (p.config.state.db.jobs.find? "j").map Job.status = some .failed ∧
            (p'.config.state.db.jobs.find? "j").map Job.status = some .succeeded ∧
            (p'.config.state.db.jobs.find? "j").bind Job.error = some "orphaned" then some ()
          else none) = some () := by
    decide +kernel
  obtain ⟨p, hfirst, h⟩ := Option.bind_eq_some_iff.1 hrun
  obtain ⟨p', hsecond, h⟩ := Option.bind_eq_some_iff.1 h
  split at h
  · rename_i hstatus
    exact ⟨p, p', moves_of_schedule hfirst, moves_of_schedule hsecond, hstatus⟩
  · cases h

end Vivac
