import Vivac.Jobs.RunOnce

/-!
# What sessions do to jobs

A worker has a job in hand from the commit of its claim to the commit of its outcome (`inHand`). The
pending work of a session changes the jobs that it says it changes and no others, keeps job rows
in order where these jobs are unfinished, fails running jobs as orphans, and records outcomes of
jobs in hand only (`OutcomeWork`).

All of this is known of the programs of the processes whatever the other sessions do; what a run
makes of it is said in `TerminalStates`.
-/

set_option autoImplicit false

namespace Vivac

open Lib App

/-! ## Job rows -/

/-- SUCCEEDED or FAILED. -/
def Job.isFinished (job : Job) : Bool := job.status == .succeeded || job.status == .failed

/-- What the columns of a job row have to do with its status. -/
structure Job.Consistent (job : Job) : Prop where
  succeeded : job.status = .succeeded → job.error = none
  failed : job.status = .failed → job.result = none
  finished : job.finishedAt.isSome = true ↔ job.isFinished = true

/-- A consistent job that has no outcome before it is finished. -/
structure Job.WellKept (job : Job) : Prop extends job.Consistent where
  unfinished : job.isFinished = false → job.error = none ∧ job.result = none

/-- All job rows are well kept. -/
def AllWellKept (d : Db) : Prop := ∀ job ∈ d.jobs.rows, job.WellKept

/-- The job is not finished, if it is there. -/
def Unfinished (uid : String) (d : Db) : Prop :=
  ∀ job, d.jobs.find? uid = some job → job.isFinished = false

/-- The job is there, and runs. -/
def IsRunning (uid : String) (d : Db) : Prop :=
  ∃ job, d.jobs.find? uid = some job ∧ job.status = .running

section Rows

variable {uid : String} {d d' : Db}

theorem allWellKept_congr (h : d'.jobs = d.jobs) (hd : AllWellKept d) : AllWellKept d' := by
  unfold AllWellKept
  rw [h]
  exact hd

theorem unfinished_congr (h : d'.jobs = d.jobs) (hd : Unfinished uid d) : Unfinished uid d' := by
  unfold Unfinished
  rw [h]
  exact hd

theorem IsRunning.unfinished (h : IsRunning uid d) : Unfinished uid d := by
  obtain ⟨job, hjob, hrunning⟩ := h
  intro job' hjob'
  cases hjob.symm.trans hjob'
  simp [Job.isFinished, hrunning]

theorem IsPending.unfinished (h : IsPending uid d) : Unfinished uid d := by
  obtain ⟨job, hjob, hpending⟩ := h
  intro job' hjob'
  cases hjob.symm.trans hjob'
  simp [Job.isFinished, hpending]

theorem IsRunning.congr (hrow : d'.jobs.find? uid = d.jobs.find? uid) (h : IsRunning uid d) :
    IsRunning uid d' := by
  obtain ⟨job, hjob, hrunning⟩ := h
  exact ⟨job, hrow.trans hjob, hrunning⟩

/-- An update leaves the jobs alone that it does not name. -/
theorem frame_rewriteJobs {uids : List String} {f : Rewrite Job.uid} (h : uid ∉ uids) :
    (rewriteJobs uids f d).jobs.find? uid = d.jobs.find? uid := by
  have hconfined := confined_rewriteJobs uids f d (.job uid) fun hmem => by
    obtain ⟨u, hu, hkey⟩ := List.mem_map.1 hmem
    cases hkey
    exact h hu
  exact hconfined

/-- An update that makes well kept jobs of unfinished ones keeps job rows in order. -/
theorem keeps_rewriteJobs {uids : List String} {f : Rewrite Job.uid}
    (hf : ∀ j, j.isFinished = false → j.WellKept → ((f.apply j).getD j).WellKept)
    (hun : ∀ uid ∈ uids, Unfinished uid d) (h : AllWellKept d) :
    AllWellKept (rewriteJobs uids f d) := by
  intro job hjob
  obtain ⟨old, hold, rfl⟩ := List.mem_map.1 hjob
  split
  · rename_i hin
    exact hf old (hun old.uid (by simpa using hin) old (Table.find?_eq_some.2 ⟨hold, rfl⟩))
      (h old hold)
  · exact h old hold

end Rows

/-! ## Jobs in hand -/

/-- What one more change makes of the jobs in hand. -/
def handAfter (held : List String) : Change → List String
  | .claim uid => uid :: held
  | .job uid => held.filter fun u => u != uid
  | _ => held

/-- The jobs that a session has claimed, and has committed no change of since. -/
def inHand (commits : List (List Change)) : List String := commits.flatten.foldl handAfter []

theorem inHand_concat (commits : List (List Change)) (chs : List Change) :
    inHand (commits ++ [chs]) = chs.foldl handAfter (inHand commits) := by
  simp [inHand, List.foldl_append]

/-- What is in hand after some changes was claimed by them, or was in hand and stayed. -/
theorem mem_handAfter {uid : String} {chs : List Change} {held : List String}
    (h : uid ∈ chs.foldl handAfter held) :
    Change.claim uid ∈ chs ∨ uid ∈ held ∧ Change.job uid ∉ chs := by
  induction chs generalizing held with
  | nil => exact .inr ⟨h, List.not_mem_nil⟩
  | cons ch chs ih =>
      rcases ih h with hclaim | ⟨hheld, hjob⟩
      · exact .inl (List.mem_cons_of_mem _ hclaim)
      · simp only [List.mem_cons, not_or]
        cases ch with
        | claim v =>
            rcases List.mem_cons.1 hheld with rfl | hheld
            · exact .inl (.inl rfl)
            · exact .inr ⟨hheld, nofun, hjob⟩
        | job v =>
            obtain ⟨hheld, hne⟩ := List.mem_filter.1 hheld
            have hne : uid ≠ v := by simpa using hne
            exact .inr ⟨hheld, fun hsame => hne (Change.job.inj hsame), hjob⟩
        | _ => exact .inr ⟨hheld, nofun, hjob⟩

/-- What is in hand stays in hand until it is changed. -/
theorem mem_handAfter_of_mem {uid : String} {chs : List Change} {held : List String}
    (hheld : uid ∈ held) (hjob : Change.job uid ∉ chs) : uid ∈ chs.foldl handAfter held := by
  induction chs generalizing held with
  | nil => exact hheld
  | cons ch chs ih =>
      simp only [List.mem_cons, not_or] at hjob
      apply ih _ hjob.2
      cases ch with
      | claim v => exact List.mem_cons_of_mem _ hheld
      | job v =>
          refine List.mem_filter.2 ⟨hheld, ?_⟩
          simpa using fun hsame => hjob.1 (congrArg Change.job hsame)
      | _ => exact hheld

/-- What is claimed is in hand. -/
theorem mem_handAfter_of_claim {uid : String} {chs : List Change} {held : List String}
    (hclaim : Change.claim uid ∈ chs) (hjob : Change.job uid ∉ chs) :
    uid ∈ chs.foldl handAfter held := by
  induction chs generalizing held with
  | nil => cases hclaim
  | cons ch chs ih =>
      simp only [List.mem_cons, not_or] at hjob
      rw [List.foldl_cons]
      rcases List.mem_cons.1 hclaim with rfl | hclaim
      · exact mem_handAfter_of_mem (List.mem_cons_self ..) hjob.2
      · exact ih hclaim hjob.2

theorem mem_jobsChanged {uid : String} {chs : List Change} {ch : Change} (h : ch ∈ chs)
    (huid : ch.jobUid? = some uid) : uid ∈ jobsChanged chs :=
  List.mem_filterMap.2 ⟨ch, h, huid⟩

/-- Changes of no job leave the hand as it is. -/
theorem handAfter_of_jobsChanged {chs : List Change} {held : List String}
    (h : jobsChanged chs = []) : chs.foldl handAfter held = held := by
  induction chs with
  | nil => rfl
  | cons ch chs ih =>
      have hnone : ch.jobUid? = none := by
        cases huid : ch.jobUid? with
        | none => rfl
        | some uid =>
            have hmem := mem_jobsChanged (List.mem_cons_self (l := chs)) huid
            rw [h] at hmem
            cases hmem
      have hrest : jobsChanged chs = [] := by
        rw [jobsChanged, List.filterMap_cons, hnone] at h
        exact h
      cases ch with
      | job uid => cases hnone
      | claim uid => cases hnone
      | orphan uid => cases hnone
      | _ => exact ih hrest

/-- A job in hand was claimed. -/
theorem claimed_of_inHand {uid : String} {commits : List (List Change)}
    (h : uid ∈ inHand commits) : uid ∈ claimsOf commits := by
  rcases mem_handAfter h with hclaim | ⟨hnone, -⟩
  · exact List.mem_filterMap.2 ⟨.claim uid, hclaim, rfl⟩
  · cases hnone

theorem jobsChanged_map (mk : String → Change) (h : ∀ u, (mk u).jobUid? = some u)
    (uids : List String) : jobsChanged (uids.map mk) = uids := by
  rw [jobsChanged, List.filterMap_map]
  have hid : Change.jobUid? ∘ mk = some := funext h
  rw [hid, List.filterMap_some]

/-! ## The law of pending work -/

/-- Pending work changes no job but those it says, keeps job rows in order where these are
unfinished, makes claimed jobs run, fails running ones as orphans, and records what comes of jobs
in hand; a job it creates is not there yet. -/
structure OutcomeWork (commits : List (List Change)) (d : Db) (w : Work Db RowKey Change) :
    Prop where
  frame : ∀ d' uid, uid ∉ jobsChanged w.changes →
    (w.write d').jobs.find? uid = d'.jobs.find? uid
  keeps : ∀ d', (∀ uid ∈ jobsChanged w.changes, Unfinished uid d') → AllWellKept d' →
    AllWellKept (w.write d')
  starts : ∀ uid, Change.claim uid ∈ w.changes → ∀ d', (∃ job, d'.jobs.find? uid = some job) →
    IsRunning uid (w.write d')
  orphans : ∀ uid, Change.orphan uid ∈ w.changes → RowKey.job uid ∈ w.locks ∧ IsRunning uid d
  outcomes : ∀ uid, Change.job uid ∈ w.changes →
    (RowKey.job uid ∈ w.locks ∧ d.jobs.find? uid = none) ∨ uid ∈ inHand commits

def outcomeLaw : WorkLaw jobUnder Change where
  holds := OutcomeWork
  none c d := ⟨fun _ _ _ => rfl, fun _ _ h => h, by simp, by simp, by simp⟩
  rows {c d d' w} hrows h := by
    refine ⟨h.frame, h.keeps, h.starts, fun uid huid => ?_, fun uid huid => ?_⟩
    · obtain ⟨hlock, hrunning⟩ := h.orphans uid huid
      have hrow : d'.jobs.find? uid = d.jobs.find? uid := hrows _ hlock
      exact ⟨hlock, hrunning.congr hrow⟩
    · rcases h.outcomes uid huid with ⟨hlock, hnone⟩ | hheld
      · have hrow : d'.jobs.find? uid = d.jobs.find? uid := hrows _ hlock
        exact .inl ⟨hlock, hrow.trans hnone⟩
      · exact .inr hheld

/-- The effect changes no job, though it may lock some. -/
structure WritesNoJob (write : Db → Db) (changes : List Change) : Prop where
  write : ∀ d, (write d).jobs = d.jobs
  changes : jobsChanged changes = []

section Work

variable {R : Type} {commits : List (List Change)} {d : Db} {w : Work Db RowKey Change}
  {eff : Effect Db RowKey Change R}

theorem jobsChanged_append (chs chs' : List Change) :
    jobsChanged (chs ++ chs') = jobsChanged chs ++ jobsChanged chs' := List.filterMap_append

theorem WritesNoJob.not_mem {write : Db → Db} {changes : List Change}
    (h : WritesNoJob write changes) (ch : Change) {uid : String} (huid : ch.jobUid? = some uid) :
    ch ∉ changes := by
  intro hmem
  have hin := mem_jobsChanged hmem huid
  rw [h.changes] at hin
  cases hin

/-- The law after a statement that changes no job. -/
theorem OutcomeWork.andThen (h : OutcomeWork commits d w)
    (heff : WritesNoJob eff.write eff.changes) : OutcomeWork commits d (w.andThen eff) := by
  have hchanges : jobsChanged (w.andThen eff).changes = jobsChanged w.changes := by
    rw [Work.andThen, jobsChanged_append, heff.changes, List.append_nil]
  have hold : ∀ {ch : Change} {uid : String}, ch.jobUid? = some uid →
      ch ∈ (w.andThen eff).changes → ch ∈ w.changes := fun huid hmem =>
    (List.mem_append.1 hmem).resolve_right (heff.not_mem _ huid)
  refine ⟨fun d' uid huid => ?_, fun d' hun hd' => ?_, fun uid huid d' hrow => ?_,
    fun uid huid => ?_, fun uid huid => ?_⟩
  · rw [hchanges] at huid
    show (eff.write (w.write d')).jobs.find? uid = _
    rw [heff.write]
    exact h.frame d' uid huid
  · rw [hchanges] at hun
    exact allWellKept_congr (heff.write _) (h.keeps d' hun hd')
  · have hrunning := h.starts uid (hold rfl huid) d' hrow
    refine hrunning.congr ?_
    show (eff.write (w.write d')).jobs.find? uid = _
    rw [heff.write]
  · obtain ⟨hlock, hrunning⟩ := h.orphans uid (hold rfl huid)
    exact ⟨List.mem_append_left _ hlock, hrunning⟩
  · exact (h.outcomes uid (hold rfl huid)).imp
      (fun hnew => ⟨List.mem_append_left _ hnew.1, hnew.2⟩) id

/-- The law after the one statement that changes jobs. -/
theorem OutcomeWork.of_spared (hw : WritesNoJob w.write w.changes)
    (h : OutcomeWork commits d (({} : Work Db RowKey Change).andThen eff)) :
    OutcomeWork commits d (w.andThen eff) := by
  have hchanges : jobsChanged (w.andThen eff).changes = jobsChanged eff.changes := by
    rw [Work.andThen, jobsChanged_append, hw.changes, List.nil_append]
  have hnew : ∀ {ch : Change} {uid : String}, ch.jobUid? = some uid →
      ch ∈ (w.andThen eff).changes → ch ∈ eff.changes := fun huid hmem =>
    (List.mem_append.1 hmem).resolve_left (hw.not_mem _ huid)
  refine ⟨fun d' uid huid => ?_, fun d' hun hd' => ?_, fun uid huid d' hrow => ?_,
    fun uid huid => ?_, fun uid huid => ?_⟩
  · rw [hchanges] at huid
    have hframe := h.frame (w.write d') uid huid
    rw [← hw.write d']
    exact hframe
  · rw [hchanges] at hun
    exact h.keeps (w.write d') (fun uid huid => unfinished_congr (hw.write d') (hun uid huid))
      (allWellKept_congr (hw.write d') hd')
  · apply h.starts uid (hnew rfl huid) (w.write d')
    rw [hw.write d']
    exact hrow
  · obtain ⟨hlock, hrunning⟩ := h.orphans uid (hnew rfl huid)
    exact ⟨List.mem_append_right _ hlock, hrunning⟩
  · exact (h.outcomes uid (hnew rfl huid)).imp
      (fun hnew => ⟨List.mem_append_right _ hnew.1, hnew.2⟩) id

end Work

/-! ## Commands -/

/-- A command that changes no job, though it may lock some. -/
def Command.WritesNoJob : {β : Type} → Command β → Prop
  | _, .sql st => st.Confined jobUnder ∧ ∀ locked d eff, st locked d = .ok eff →
      Vivac.WritesNoJob eff.write eff.changes
  | _, _ => True

theorem Command.WritesNoJob.confined {β : Type} {c : Command β} (h : Command.WritesNoJob c) :
    c.Confined jobUnder := by
  cases c with
  | sql st => exact h.1
  | _ => trivial

theorem Command.WritesNoJob.of_spares {β : Type} {c : Command β} (h : Command.SparesJobs c) :
    Command.WritesNoJob c := by
  cases c with
  | sql st =>
      refine ⟨SparesJobs.confined h, fun locked d eff heff => ?_⟩
      have hspares := h.spares locked d eff heff
      exact ⟨hspares.write, hspares.changes⟩
  | _ => trivial

section Steps

variable {ι : Type} [DecidableEq ι] {i : ι} {s s' : State ι} {uids : List String}

/-- The workers of all processes, which are cancelled at commands of the database only. -/
abbrev calmWorkers (ι : Type) [DecidableEq ι] : System ι Exc Command (State ι) :=
  faultyWorkers ι fun e => e.isException = true

abbrev outcomeTerms (ι : Type) [DecidableEq ι] : Terms ι Db RowKey Change Body :=
  workTerms outcomeLaw (fun _ _ => True) fun _ _ _ => True

theorem publishes_outcomes :
    outcomeLaw.Publishes (ι := ι) (V := Body) (fun _ _ => True) fun _ _ _ => True :=
  ⟨fun _ => trivial, fun _ _ _ _ => ⟨trivial, trivial⟩⟩

theorem outcomeTerms_fits : (outcomeTerms ι).contract.Fits (calmWorkers ι) :=
  workTerms_fair.fits transacting_workers.toFramed

/-- The pending work of session `i` has changed no job. -/
def Spared (i : ι) (s : State ι) : Prop := ∀ w ∈ s.works i, WritesNoJob w.write w.changes

/-- Process `i` has the jobs of the list in hand, and has changed none since it last committed. -/
def Working (i : ι) (uids : List String) (s : State ι) : Prop :=
  Spared i s ∧ ∀ uid ∈ uids, uid ∈ inHand (s.commits i)

theorem writesNoJob_none : WritesNoJob ({} : Work Db RowKey Change).write [] :=
  ⟨fun _ => rfl, rfl⟩

omit [DecidableEq ι] in
theorem spared_of_none (h : ∀ w ∈ s.works i, w = {}) : Spared i s := by
  intro w hw
  rw [h w hw]
  exact writesNoJob_none

theorem stable_spared : Stable (outcomeTerms ι).contract i (Spared i) := by
  rintro s s' - ⟨hund, -⟩ h
  rcases hund.tx with ⟨htx, -⟩ | hlost
  · unfold Spared World.works
    rw [htx]
    exact h
  · apply spared_of_none
    intro w hw
    simpa [World.works, hlost] using hw

theorem stable_working : Stable (outcomeTerms ι).contract i (Working i uids) := by
  rintro s s' hi ⟨hund, hkeep⟩ ⟨hspared, hheld⟩
  refine ⟨stable_spared s s' hi ⟨hund, hkeep⟩ hspared, ?_⟩
  rw [hund.commits]
  exact hheld

/-- The transaction of session `i` is not usable. -/
def Unusable (i : ι) (s : State ι) : Prop := (s.tx i).status ≠ .active

theorem stable_unusable : Stable (outcomeTerms ι).contract i (Unusable i) := by
  rintro s s' - ⟨hund, -⟩ h
  unfold Unusable
  rcases hund.tx with ⟨htx, -⟩ | hlost
  · rw [htx]
    exact h
  · rw [hlost]
    simp

/-- A command that changes no job keeps the law. -/
theorem keepsLaw_of_writesNoJob {β : Type} {c : Command β} (hc : Command.WritesNoJob c)
    (hi : (outcomeTerms ι).inv s) :
    ∀ w ∈ s'.works i, c.Extends i s w → OutcomeWork (s.commits i) s.db w := by
  intro w _ hext
  cases c with
  | sql st =>
      obtain ⟨-, eff, heff, rfl⟩ := hext
      have hold : OutcomeWork (s.commits i) s.db (s.tx i).work := hi.2.1 i _ (List.mem_cons_self ..)
      exact hold.andThen (hc.2 _ _ _ heff)
  | _ => exact hext.elim

/-- A program that changes no job keeps what every command keeps. -/
theorem triple_writesNoJob {α : Type} {A : State ι → Prop}
    (hA : Stable (outcomeTerms ι).contract i A)
    (hkeep : ∀ {β : Type} {c : Command β} {s s' : State ι} {r : Except Exc β},
      Command.WritesNoJob c → A s → (calmWorkers ι).step i c s r s' → A s') {p : App α}
    (hp : p.Uses Command.WritesNoJob) :
    Triple (calmWorkers ι) (outcomeTerms ι).contract i A p fun _ => A := by
  apply Triple.of_uses hA _ hp
  intro β c hc s r s' hi h hs
  obtain ⟨hinv, hown⟩ := publishes_outcomes.step transacting_workers hc.confined hi hs
    (keepsLaw_of_writesNoJob hc hi)
  exact ⟨hinv, hown, hkeep hc h hs⟩

theorem Spared.step {β : Type} {c : Command β} {r : Except Exc β} (hc : Command.WritesNoJob c)
    (h : Spared i s) (hs : (calmWorkers ι).step i c s r s') : Spared i s' := by
  intro w hw
  rcases transacting_workers.works hs w hw with hold | hnone | hext
  · exact h w hold
  · rw [hnone]
    exact writesNoJob_none
  · cases c with
    | sql st =>
        obtain ⟨-, eff, heff, rfl⟩ := hext
        have hold := h _ (List.mem_cons_self ..)
        have hnew := hc.2 _ _ _ heff
        refine ⟨fun d => (hnew.write _).trans (hold.write d), ?_⟩
        rw [Work.andThen, jobsChanged_append, hold.changes, hnew.changes]
        rfl
    | _ => exact hext.elim

/-- What changes no job leaves the hand as it is, also where it is committed. -/
theorem Working.step {β : Type} {c : Command β} {r : Except Exc β} (hc : Command.WritesNoJob c)
    (h : Working i uids s) (hs : (calmWorkers ι).step i c s r s') : Working i uids s' := by
  refine ⟨h.1.step hc hs, ?_⟩
  cases transacting_workers.publishes hs with
  | quiet _ hcommits =>
      rw [hcommits]
      exact h.2
  | commit _ _ hcommits _ =>
      rw [hcommits, inHand_concat, handAfter_of_jobsChanged (h.1 _ (List.mem_cons_self ..)).changes]
      exact h.2

theorem triple_working {α : Type} {p : App α} (hp : p.Uses Command.WritesNoJob) :
    Triple (calmWorkers ι) (outcomeTerms ι).contract i (Working i uids) p
      fun _ => Working i uids :=
  triple_writesNoJob stable_working Working.step hp

theorem triple_writesNone {α : Type} {p : App α} (hp : p.Uses Command.WritesNoJob) :
    Triple (calmWorkers ι) (outcomeTerms ι).contract i (fun _ => True) p fun _ _ => True :=
  triple_writesNoJob (fun _ _ _ _ h => h) (fun _ h _ => h) hp

/-- A statement that changes jobs, in a session that has changed none yet. -/
theorem triple_jobStatement {R : Type} {st : Statement R} (hc : st.Confined jobUnder)
    {P : State ι → Prop} (hP : Stable (outcomeTerms ι).contract i P)
    {M : Except Exc R → State ι → Prop} (hM : ∀ r, Stable (outcomeTerms ι).contract i (M r))
    (hst : ∀ s, P s → (s.tx i).status = .active → Spared i s ∧
      ∀ locked d eff, d.jobs = s.db.jobs → st locked d = .ok eff →
        OutcomeWork (s.commits i) s.db (({} : Work Db RowKey Change).andThen eff))
    (hpost : ∀ s r s', P s → (calmWorkers ι).step i (.sql st) s r s' → M r s') :
    Triple (calmWorkers ι) (outcomeTerms ι).contract i P (execute st) M := by
  apply Triple.workAct publishes_outcomes transacting_workers (Cmd.confined_sql hc) hP hM
  intro s r s' hi h hs
  refine ⟨fun w hw hext => ?_, hpost s r s' h hs⟩
  obtain ⟨hactive, eff, heff, rfl⟩ := hext
  obtain ⟨hspared, heffect⟩ := hst s h hactive
  have hwork := hspared _ (List.mem_cons_self ..)
  exact OutcomeWork.of_spared hwork (heffect _ _ _ (hwork.write s.db) heff)

/-! ## Programs that change no job -/

theorem uses_jobRead {R : Type} (f : Db → R) : (select f).Uses Command.WritesNoJob :=
  Prog.uses_perform (Command.WritesNoJob.of_spares (sparesJobs_read f))

theorem uses_plain {c : Command Unit} (hc : Command.WritesNoJob c) :
    (Prog.perform c : App Unit).Uses Command.WritesNoJob := Prog.uses_perform hc

theorem uses_commit_job : (commit : App Unit).Uses Command.WritesNoJob :=
  uses_plain (by exact trivial)

theorem uses_refreshJob (uid : String) : (refreshJob uid).Uses Command.WritesNoJob := by
  apply (uses_jobRead _).bind
  intro found
  cases found <;> trivial

theorem uses_lockPendingJob : lockPendingJob.Uses Command.WritesNoJob := by
  apply (uses_jobRead _).bind
  intro uids
  induction uids with
  | nil => trivial
  | cons uid uids ih =>
      have hlock : (execute (lockPending uid)).Uses Command.WritesNoJob := by
        apply Prog.uses_perform
        refine ⟨confined_lockPending uid, fun locked d eff heff => ?_⟩
        cases heff
        exact ⟨fun _ => rfl, rfl⟩
      apply hlock.bind
      intro found
      cases found with
      | some job => trivial
      | none => exact ih

/-- The job under a uid has it. -/
theorem triple_findJob (uid : String) :
    Triple (calmWorkers ι) (outcomeTerms ι).contract i (Working i uids)
      (select fun d => d.jobs.find? uid)
      (Returns fun found s => Working i uids s ∧ ∀ job ∈ found, job.uid = uid) := by
  apply Triple.perform stable_working
  · intro r s s' hi hr h
    cases r with
    | ok found => exact ⟨stable_working s s' hi hr h.1, h.2⟩
    | error e => trivial
  · intro s r s' hi h hs
    have hc : Command.WritesNoJob (.sql (.read fun d => d.jobs.find? uid)) :=
      Command.WritesNoJob.of_spares (sparesJobs_read _)
    obtain ⟨hinv, hown⟩ := publishes_outcomes.step transacting_workers hc.confined hi hs
      (keepsLaw_of_writesNoJob hc hi)
    refine ⟨hinv, hown, ?_⟩
    cases r with
    | error e => trivial
    | ok found =>
        refine ⟨h.step hc hs, fun job hjob => ?_⟩
        have hexec := transacting_workers.answers hs
        rcases exec_sql_cases hexec with ⟨-, he, -⟩ | ⟨-, e, -, he, -⟩ | ⟨-, eff, heff, -, ha, -⟩
        · obtain ⟨e, he⟩ := he
          cases he
        · cases he
        · cases heff
          have hfind : found = (s.view i).jobs.find? uid := Except.ok.inj ha
          rw [hfind] at hjob
          exact uid_of_find?_jobs hjob

/-! ## The handlers -/

/-- An error that is no `Exception` leaves no usable transaction. -/
theorem unusable_of_error {β : Type} {c : Command β} {r : Except Exc β}
    (hc : Command.SparesJobs c) (hs : (calmWorkers ι).step i c s r s') :
    ∀ e, r = .error e → e.isException = true ∨ Unusable i s' := by
  -- an answer of the platform, and then a fault in place of one
  have hran : ∀ {β : Type} {c : Command β} {r : Except Exc β}, Command.SparesJobs c →
      exec i c s = some (r, s') → ∀ e, r = .error e → e.isException = true ∨ Unusable i s' := by
    rintro β c r hc hexec e rfl
    cases c with
    | sql st =>
        rcases exec_sql_cases hexec with ⟨hst, -, rfl⟩ | ⟨-, e', he', hr, -⟩ | ⟨-, eff, -, -, hr, -⟩
        · exact .inr hst
        · cases hr
          exact .inl (hc.ordinary _ _ _ he')
        · cases hr
    | commit =>
        rcases exec_commit_cases hexec with ⟨-, hr, -⟩ | ⟨-, hr, -⟩ | ⟨hst, -, rfl⟩
        · cases hr
        · cases hr
        · refine .inr ?_
          simp [Unusable, hst]
    | rollback => cases (exec_rollback_eq hexec).1
    | savepoint =>
        simp only [exec, onActive] at hexec
        split at hexec <;> cases hexec <;> exact .inl rfl
    | release =>
        simp only [exec, onActive] at hexec
        split at hexec <;> cases hexec <;> exact .inl rfl
    | rollbackTo =>
        simp only [exec] at hexec
        split at hexec <;> cases hexec
        exact .inl rfl
    | get key =>
        rcases exec_get_cases hexec with ⟨-, hr, -⟩ | ⟨n, -, hr, -⟩ | ⟨v, p, -, hr, -⟩ <;> cases hr
    | set key v => cases (exec_set_eq hexec).1
    | incr key =>
        simp only [exec] at hexec
        split at hexec <;> cases hexec
        exact .inl rfl
  rintro e rfl
  rcases hs with hexec | hfault
  · exact hran hc hexec e rfl
  · cases hfault with
    | client he => exact .inl he
    | server _ he _ => exact .inl he
    | connection _ =>
        refine .inr ?_
        simp [Unusable, World.disconnect, World.setTx]
    | committed _ =>
        refine .inr ?_
        simp [Unusable, World.disconnect, World.setTx]
    | store _ he => exact .inl he
    | stored _ he _ => exact .inl he

/-- A handler changes no job, and its cancellation leaves no usable transaction. -/
theorem triple_handler (cfg : Settings) {be : Backend} {now : Timestamp} (newUid : ℕ → String)
    (hdump : ∀ e, be.dumpDatabase now = .error e → e.isException = true) (payload : JobPayload) :
    Triple (calmWorkers ι) (outcomeTerms ι).contract i (Working i uids)
      (runHandler cfg be now newUid payload)
      fun r s => Working i uids s ∧ ∀ e, r = .error e → e.isException = true ∨ Unusable i s := by
  apply Triple.of_propagates stable_working stable_unusable _
    (uses_runHandler cfg be now newUid payload) (propagates_runHandler cfg newUid hdump payload)
  intro β c hc s r s' hi h hs
  have hwrites := Command.WritesNoJob.of_spares hc
  obtain ⟨hinv, hown⟩ := publishes_outcomes.step transacting_workers hwrites.confined hi hs
    (keepsLaw_of_writesNoJob hwrites hi)
  exact ⟨hinv, hown, h.step hwrites hs, unusable_of_error hc hs⟩

/-! ## The sessions -/

/-- A session of a process, which starts with no pending work. -/
theorem triple_pooledSession {α : Type} {p : App α} {N : α → State ι → Prop}
    (hp : Triple (calmWorkers ι) (outcomeTerms ι).contract i (Working i uids) p (Returns N))
    (hclose : ∀ a, Triple (calmWorkers ι) (outcomeTerms ι).contract i (N a)
      (Prog.perform .rollback : App Unit) (Returns fun _ => N a))
    (hN : ∀ a, Stable (outcomeTerms ι).contract i (N a)) :
    Triple (calmWorkers ι) (outcomeTerms ι).contract i
      (fun s => ∀ uid ∈ uids, uid ∈ inHand (s.commits i)) (pooledSession p) (Returns N) := by
  have hstable : Stable (outcomeTerms ι).contract i
      fun s => ∀ uid ∈ uids, uid ∈ inHand (s.commits i) := by
    rintro s s' - ⟨hund, -⟩ h
    rw [hund.commits]
    exact h
  have hcheckout : Triple (calmWorkers ι) (outcomeTerms ι).contract i
      (fun s => ∀ uid ∈ uids, uid ∈ inHand (s.commits i))
      (Prog.perform .rollback : App Unit) (Returns fun _ => Working i uids) := by
    apply Triple.workAct publishes_outcomes transacting_workers (c := .rollback)
      (by exact trivial) hstable
    · intro r
      cases r with
      | ok a => exact stable_working
      | error e => exact fun _ _ _ _ h => h
    · intro s r s' hi h hs
      refine ⟨fun w _ hext => hext.elim, ?_⟩
      cases r with
      | ok a =>
          obtain ⟨-, rfl⟩ := exec_rollback_eq (transacting_workers.answers hs)
          refine ⟨spared_of_none fun w hw => ?_, ?_⟩
          · rw [endTx, World.works_setTx] at hw
            simpa using hw
          · rw [commits_rollback]
            exact h
      | error e => trivial
  apply Triple.bind_returns outcomeTerms_fits _ hcheckout
  intro _
  apply Triple.bind_attempt outcomeTerms_fits hp
  intro r
  cases r with
  | ok a =>
      apply Triple.bind_returns outcomeTerms_fits _ (hclose a)
      exact fun _ => Triple.ret_returns (hN a) fun _ _ h => h
  | error e =>
      apply Triple.bind_returns outcomeTerms_fits (fun _ _ => True)
      · refine (triple_writesNone (uses_plain (by exact trivial))).conseq (fun _ _ _ => trivial) ?_
        intro r _ _ _
        cases r <;> trivial
      · exact fun _ => Triple.raise_returns

/-- A session of which only the commits matter. -/
theorem triple_lastSession {α : Type} {p : App α}
    (hp : Triple (calmWorkers ι) (outcomeTerms ι).contract i (Working i uids) p
      (Returns fun _ _ => True)) :
    Triple (calmWorkers ι) (outcomeTerms ι).contract i
      (fun s => ∀ uid ∈ uids, uid ∈ inHand (s.commits i)) (pooledSession p)
      (Returns fun _ _ => True) := by
  apply triple_pooledSession hp
  · intro _
    refine (triple_writesNone (uses_plain (by exact trivial))).conseq (fun _ _ h => h) ?_
    intro r _ _ _
    cases r <;> trivial
  · exact fun _ _ _ _ _ h => h

/-- What follows the last thing that is to be known. -/
theorem triple_rest {α : Type} {P : State ι → Prop} {p : App α}
    (hp : p.Uses Command.WritesNoJob) :
    Triple (calmWorkers ι) (outcomeTerms ι).contract i P p (Returns fun _ _ => True) := by
  refine (triple_writesNone hp).conseq (fun _ _ _ => trivial) ?_
  intro r _ _ _
  cases r <;> trivial

theorem triple_cleanup (now : Timestamp) :
    Triple (calmWorkers ι) (outcomeTerms ι).contract i (Working i []) (cleanupOrphanedJobs now)
      (Returns fun _ _ => True) := by
  apply Triple.bind_returns outcomeTerms_fits fun _ _ => True
  · apply triple_jobStatement (confined_failOrphans now) stable_working
    · intro r
      cases r <;> exact fun _ _ _ _ h => h
    · intro s h _
      refine ⟨h.1, fun locked d eff hd heff => ?_⟩
      cases heff
      have hchanged := jobsChanged_map Change.orphan (fun _ => rfl)
        ((d.jobs.select fun j => j.status == .running).map Job.uid)
      refine ⟨fun d' uid huid => ?_, fun d' hun hd' => ?_, fun uid huid => ?_, fun uid huid => ?_,
        fun uid huid => ?_⟩
      · apply frame_rewriteJobs
        rw [← hchanged]
        exact huid
      · apply keeps_rewriteJobs _ _ hd'
        · intro j hj hkept
          obtain ⟨-, hresult⟩ := hkept.unfinished hj
          exact ⟨⟨by simp [setOrphaned, Rewrite.total], fun _ => hresult,
            by simp [setOrphaned, Rewrite.total, Job.isFinished]⟩,
            by simp [setOrphaned, Rewrite.total, Job.isFinished]⟩
        · rw [← hchanged]
          exact hun
      · obtain ⟨u, -, hclaim⟩ := List.mem_map.1 huid
        cases hclaim
      · obtain ⟨u, hu, horphan⟩ := List.mem_map.1 huid
        cases horphan
        refine ⟨List.mem_map_of_mem hu, ?_⟩
        -- what the statement fails is running in what it sees, and so in the committed rows
        obtain ⟨job, hjob, rfl⟩ := List.mem_map.1 hu
        obtain ⟨hrow, hrunning⟩ := Table.mem_select.1 hjob
        rw [hd] at hrow
        exact ⟨job, Table.find?_eq_some.2 ⟨hrow, rfl⟩, by simpa using hrunning⟩
      · obtain ⟨u, -, hjob⟩ := List.mem_map.1 huid
        cases hjob
    · intro s r s' _ _
      cases r <;> trivial
  · exact fun uids => triple_rest (uses_commit_job.bind fun _ => by trivial)

theorem triple_enqueue (now : Timestamp) (uid : String) (payload : JobPayload)
    (staffUid : String) :
    Triple (calmWorkers ι) (outcomeTerms ι).contract i (Working i [])
      (enqueueJob now uid payload staffUid) (Returns fun _ _ => True) := by
  apply Triple.bind_returns outcomeTerms_fits fun _ _ => True
  · apply triple_jobStatement (confined_insertJob _) stable_working
    · intro r
      cases r <;> exact fun _ _ _ _ h => h
    · intro s h _
      refine ⟨h.1, fun locked d eff hd heff => ?_⟩
      obtain ⟨rfl, hnone⟩ := insertJob_eq_ok heff
      refine ⟨fun d' u hu => ?_, fun d' _ hd' job hjob => ?_, by simp [Work.andThen],
        by simp [Work.andThen], fun u hu => ?_⟩
      · apply Table.find?_insert_of_ne
        rintro rfl
        exact hu (mem_jobsChanged (List.mem_singleton_self _) rfl)
      · rcases Table.mem_insert hjob with hold | rfl
        · exact hd' job hold
        · exact ⟨⟨fun _ => rfl, fun _ => rfl, by simp [Job.isFinished]⟩, fun _ => ⟨rfl, rfl⟩⟩
      · obtain rfl : u = uid := by simpa [Work.andThen] using hu
        rw [hd] at hnone
        exact .inl ⟨List.mem_singleton_self _, hnone⟩
    · intro s r s' _ _
      cases r <;> trivial
  · intro _
    apply triple_rest
    apply uses_commit_job.bind
    intro _
    exact (uses_refreshJob _).bind fun _ => by trivial

/-! ### The claim -/

/-- Process `i` is about to commit the claim of a job, and no other change of it; or its
transaction is gone. -/
def Claiming (i : ι) (uid : String) (s : State ι) : Prop :=
  s.tx i = { status := .lost } ∨ (s.tx i).status = .active ∧
    Change.claim uid ∈ (s.tx i).work.changes ∧ Change.job uid ∉ (s.tx i).work.changes

theorem stable_claiming {uid : String} :
    Stable (outcomeTerms ι).contract i (Claiming i uid) := by
  rintro s s' - ⟨hund, -⟩ h
  rcases hund.tx with ⟨htx, -⟩ | hlost
  · unfold Claiming
    rw [htx]
    exact h
  · exact .inl hlost

/-- The flush of a claim. -/
theorem triple_claimFlush (now : Timestamp) (uid : String) :
    Triple (calmWorkers ι) (outcomeTerms ι).contract i (Working i []) (execute (startJob now uid))
      (Returns fun started s => started.isEmpty = false → Claiming i uid s) := by
  apply triple_jobStatement (confined_startJob now uid) stable_working
  · intro r s s' hi hr h
    cases r with
    | ok started => exact fun hsome => stable_claiming s s' hi hr (h hsome)
    | error e => trivial
  · intro s h _
    refine ⟨h.1, fun locked d eff hd heff => ?_⟩
    cases heff
    -- the parts of `OutcomeWork`: frame, what it keeps, claims, orphans, outcomes
    have hchanged := jobsChanged_map Change.claim (fun _ => rfl)
      ((d.jobs.select fun j => j.uid == uid).map Job.uid)
    refine ⟨fun d' u hu => ?_, fun d' hun hd' => ?_, fun u hu d' hrow => ?_, fun u hu => ?_,
      fun u hu => ?_⟩
    · apply frame_rewriteJobs
      rw [← hchanged]
      exact hu
    · apply keeps_rewriteJobs _ _ hd'
      · intro j hj hkept
        obtain ⟨herror, hresult⟩ := hkept.unfinished hj
        have hfinished : j.finishedAt.isSome = false := by
          by_contra hne
          rw [hkept.finished.1 ((Bool.not_eq_false _).mp hne)] at hj
          cases hj
        refine ⟨⟨fun _ => herror, fun _ => hresult, ?_⟩, fun _ => ⟨herror, hresult⟩⟩
        simp [Rewrite.total, setRunning, Job.isFinished, hfinished]
      · rw [← hchanged]
        exact hun
    · obtain ⟨v, hv, hclaim⟩ := List.mem_map.1 hu
      cases hclaim
      obtain ⟨job, hjob⟩ := hrow
      have hrow : (rewriteJobs ((d.jobs.select fun j => j.uid == uid).map Job.uid)
          (setRunning now) d').jobs.find? u = some (((setRunning now).apply job).getD job) := by
        rw [find?_rewriteJobs, hjob, Option.map_some, uid_of_find?_jobs hjob, if_pos hv]
      exact ⟨_, hrow, rfl⟩
    · obtain ⟨v, -, horphan⟩ := List.mem_map.1 hu
      cases horphan
    · obtain ⟨v, -, hjob⟩ := List.mem_map.1 hu
      cases hjob
  · intro s r s' h hs
    cases r with
    | error e => trivial
    | ok started =>
        intro hsome
        have hexec := transacting_workers.answers hs
        rcases exec_sql_cases hexec with ⟨-, he, -⟩ | ⟨-, e, -, he, -⟩ |
          ⟨hactive, eff, heff, -, ha, rfl⟩
        · obtain ⟨e, he⟩ := he
          cases he
        · cases he
        · cases heff
          obtain rfl := Except.ok.inj ha
          obtain ⟨u, hu⟩ := List.exists_mem_of_ne_nil _ (List.isEmpty_eq_false_iff.1 hsome)
          have hnotyet := (h.1 _ (List.mem_cons_self ..)).not_mem (.job uid) rfl
          -- of the job the work has the claim, and no outcome: before the flush it had neither
          refine .inr ?_
          simp only [World.setTx, Function.update_self]
          refine ⟨hactive, List.mem_append_right _ ?_, ?_⟩
          · obtain ⟨rfl, -⟩ := select_job_uids.1 hu
            exact List.mem_map_of_mem hu
          · rw [List.mem_append, not_or]
            refine ⟨hnotyet, ?_⟩
            simp

/-- The commit of a claim, where it does not raise, takes the job in hand. -/
theorem triple_claimCommit (uid : String) :
    Triple (calmWorkers ι) (outcomeTerms ι).contract i (Claiming i uid) commit
      (Returns fun _ => Working i [uid]) := by
  apply Triple.workAct publishes_outcomes transacting_workers (c := .commit) (by exact trivial)
    stable_claiming
  · intro r
    cases r with
    | ok u => exact stable_working
    | error e => exact fun _ _ _ _ h => h
  · intro s r s' _ h hs
    refine ⟨fun _ _ hext => hext.elim, ?_⟩
    cases r with
    | error e => trivial
    | ok u =>
        have hexec := transacting_workers.answers hs
        rcases h with hlost | ⟨hactive, hclaim, hjob⟩
        · rcases exec_commit_cases hexec with ⟨hst, -, -⟩ | ⟨hst, -, -⟩ | ⟨-, he, -⟩
          · rw [hlost] at hst
            cases hst
          · rw [hlost] at hst
            cases hst
          · obtain ⟨e, he⟩ := he
            cases he
        · rcases exec_commit_cases hexec with ⟨-, -, rfl⟩ | ⟨hst, -, -⟩ | ⟨-, he, -⟩
          · refine ⟨spared_of_none fun w hw => ?_, fun v hv => ?_⟩
            · rw [execCommit, endTx, World.works_setTx] at hw
              simpa using hw
            · obtain rfl := List.mem_singleton.1 hv
              rw [commits_execCommit, inHand_concat]
              exact mem_handAfter_of_claim hclaim hjob
          · rw [hactive] at hst
            cases hst
          · obtain ⟨e, he⟩ := he
            cases he

/-- A claim answers a job that the process has in hand. -/
theorem triple_claim (now : Timestamp) :
    Triple (calmWorkers ι) (outcomeTerms ι).contract i (Working i []) (claimNextJob now)
      (Returns fun found s => ∀ job ∈ found, Working i [job.uid] s) := by
  have hlock : Triple (calmWorkers ι) (outcomeTerms ι).contract i (Working i []) lockPendingJob
      (Returns fun _ => Working i []) := by
    refine (triple_working uses_lockPendingJob).conseq (fun _ _ h => h) fun r s _ h => ?_
    cases r with
    | ok found => exact h
    | error e => trivial
  apply Triple.bind_returns outcomeTerms_fits _ hlock
  intro found
  cases found with
  | none => exact fun _ _ _ _ _ _ => nofun
  | some job =>
      apply Triple.bind_returns outcomeTerms_fits _ (triple_claimFlush now job.uid)
      intro started
      cases hstarted : started.isEmpty with
      | true => exact Triple.raise_returns
      | false =>
          apply Triple.bind_returns outcomeTerms_fits _
            ((triple_claimCommit job.uid).conseq (fun _ _ h => h rfl) fun _ _ _ h => h)
          intro _
          show Triple _ _ _ _ ((refreshJob job.uid).bind fun fresh => .ret (some fresh)) _
          unfold refreshJob
          rw [Prog.bind_eq_bind, Prog.bind_assoc]
          apply Triple.bind_returns outcomeTerms_fits _ (triple_findJob job.uid)
          intro fresh
          cases fresh with
          | none => exact Triple.raise_returns
          | some fresh =>
              rintro s - ⟨h, huid⟩ s' hi hr job' hjob'
              cases hjob'
              rw [huid fresh rfl]
              exact stable_working s s' hi hr h

/-! ### The outcome -/

/-- The outcome of a handler makes a well kept job of an unfinished one, unless it was cancelled. -/
theorem wellKept_recordOutcome {now : Timestamp} {outcome : Except Exc JobResult}
    (hordinary : ∀ e, outcome = .error e → e.isException = true) {j : Job}
    (hun : j.isFinished = false) (hj : j.WellKept) :
    (((recordOutcome now outcome).apply j).getD j).WellKept := by
  obtain ⟨herror, hresult⟩ := hj.unfinished hun
  cases outcome with
  | ok result =>
      exact ⟨⟨fun _ => herror, by simp [recordOutcome, Rewrite.total],
        by simp [recordOutcome, Rewrite.total, Job.isFinished]⟩,
        by simp [recordOutcome, Rewrite.total, Job.isFinished]⟩
  | error e =>
      have he := hordinary e rfl
      simp only [recordOutcome, Rewrite.total, he, if_true, Option.getD_some]
      exact ⟨⟨by simp, fun _ => hresult, by simp [Job.isFinished]⟩, by simp [Job.isFinished]⟩

/-- The flush of an outcome, of a job that is in hand. -/
theorem triple_outcomeFlush {now : Timestamp} {outcome : Except Exc JobResult} (uid : String) :
    Triple (calmWorkers ι) (outcomeTerms ι).contract i
      (fun s => Working i [uid] s ∧ ∀ e, outcome = .error e → e.isException = true ∨ Unusable i s)
      (flushJob uid (recordOutcome now outcome)) (Returns fun _ _ => True) := by
  apply Triple.bind_returns outcomeTerms_fits fun _ _ => True
  · apply triple_jobStatement (confined_updateJobs _ _)
    · rintro s s' hi hr ⟨h, he⟩
      refine ⟨stable_working s s' hi hr h, fun e heq => (he e heq).imp id ?_⟩
      exact stable_unusable s s' hi hr
    · intro r
      cases r <;> exact fun _ _ _ _ h => h
    · rintro s ⟨h, hcancelled⟩ hactive
      refine ⟨h.1, fun locked d eff hd heff => ?_⟩
      cases heff
      have hchanged := jobsChanged_map Change.job (fun _ => rfl)
        ((d.jobs.select fun j => j.uid == uid).map Job.uid)
      refine ⟨fun d' u hu => ?_, fun d' hun hd' => ?_, fun u hu => ?_, fun u hu => ?_,
        fun u hu => ?_⟩
      · apply frame_rewriteJobs
        rw [← hchanged]
        exact hu
      · apply keeps_rewriteJobs _ _ hd'
        · intro j hj hkept
          apply wellKept_recordOutcome _ hj hkept
          exact fun e he => (hcancelled e he).resolve_right fun hno => hno hactive
        · rw [← hchanged]
          exact hun
      · obtain ⟨v, -, hclaim⟩ := List.mem_map.1 hu
        cases hclaim
      · obtain ⟨v, -, horphan⟩ := List.mem_map.1 hu
        cases horphan
      · obtain ⟨v, hv, hjob⟩ := List.mem_map.1 hu
        cases hjob
        obtain ⟨rfl, -⟩ := select_job_uids.1 hv
        exact .inr (h.2 u (List.mem_singleton_self u))
    · intro s r s' _ _
      cases r <;> trivial
  · intro started
    apply triple_rest
    split <;> trivial

theorem triple_processClaimed_outcome (cfg : Settings) {be : Backend} {now : Timestamp}
    (newUid : ℕ → String)
    (hdump : ∀ e, be.dumpDatabase now = .error e → e.isException = true) (uid : String) :
    Triple (calmWorkers ι) (outcomeTerms ι).contract i (Working i [uid])
      (processClaimed cfg be now newUid uid) (Returns fun _ _ => True) := by
  unfold processClaimed reloadJob
  rw [Prog.bind_eq_bind, Prog.bind_eq_bind, Prog.bind_assoc]
  apply Triple.bind_returns outcomeTerms_fits _ (triple_findJob uid)
  intro found
  cases found with
  | none => exact Triple.raise_returns
  | some job =>
      rintro s hi ⟨h, huid⟩
      obtain rfl := huid job rfl
      revert s
      refine fun s hi h => ?_
      have hprocess : Triple (calmWorkers ι) (outcomeTerms ι).contract i (Working i [job.uid])
          (processJob cfg be now newUid job) (Returns fun _ _ => True) := by
        have haudit : Triple (calmWorkers ι) (outcomeTerms ι).contract i (Working i [job.uid])
            (setAuditUser job.createdBy) (Returns fun _ => Working i [job.uid]) := by
          refine (triple_working (uses_jobRead _)).conseq (fun _ _ h => h) fun r s _ h => ?_
          cases r with
          | ok u => exact h
          | error e => trivial
        apply Triple.bind_returns outcomeTerms_fits _ haudit
        intro _
        apply Triple.bind_attempt outcomeTerms_fits (triple_handler cfg newUid hdump job.payload)
        intro outcome
        apply Triple.bind_returns outcomeTerms_fits _ (triple_outcomeFlush job.uid)
        intro _
        apply triple_rest
        apply uses_commit_job.bind
        intro _
        cases outcome with
        | ok result => trivial
        | error e =>
            dsimp only
            split <;> trivial
      exact hprocess s hi h

end Steps

end Vivac
