import Vivac.Core.Contracts
import Vivac.Core.SampleBackend
import Vivac.Jobs.JobRows
import Vivac.Workers.Instances

/-!
# Jobs run at most once

Any number of instances and enqueuing requests, interleaved command by command, with faults,
cancellations, crashes and restarts. The claim of a job is a lock and an update of one
transaction, so of two claims of a job only one is committed; a job that is not pending stays
so; and a process only processes what it has claimed, once (`jobs_run_once`).
-/

set_option autoImplicit false

namespace Vivac

open Lib App

/-- The job is there, and pending. -/
def IsPending (uid : String) (d : Db) : Prop :=
  ∃ job, d.jobs.find? uid = some job ∧ job.status = .pending

/-- The job is there, and not pending any more. -/
def IsStarted (uid : String) (d : Db) : Prop :=
  ∃ job, d.jobs.find? uid = some job ∧ job.status ≠ .pending

/-- The jobs that changes claim. -/
def claimsOf (changes : List (List Change)) : List String :=
  changes.flatten.filterMap Change.claimed?

theorem claimsOf_concat (changes : List (List Change)) (chs : List Change) :
    claimsOf (changes ++ [chs]) = claimsOf changes ++ chs.filterMap Change.claimed? := by
  simp [claimsOf]

/-- No job is claimed twice, and a claimed job is not pending. -/
structure ClaimsOnce {ι : Type} (d : Db) (commits : ι → List (List Change)) : Prop where
  nodup : ∀ i, (claimsOf (commits i)).Nodup
  disjoint : ∀ i j, i ≠ j → ∀ uid ∈ claimsOf (commits i), uid ∉ claimsOf (commits j)
  started : ∀ i, ∀ uid ∈ claimsOf (commits i), IsStarted uid d

/-- No started job is pending again. -/
def StaysStarted {ι : Type} (_i : ι) (s s' : State ι) : Prop :=
  ∀ uid, IsStarted uid s.db → IsStarted uid s'.db

/-! ## The law of pending work -/

/-- Pending work starts no job over, and what it claims is a pending job that it has locked and
starts. -/
structure ClaimWork (d : Db) (w : Work Db RowKey Change) : Prop where
  started : ∀ d' uid, IsStarted uid d' → IsStarted uid (w.write d')
  nodup : (w.changes.filterMap Change.claimed?).Nodup
  claims : ∀ uid ∈ w.changes.filterMap Change.claimed?, RowKey.job uid ∈ w.locks ∧
    IsPending uid d ∧ ∀ d', (∃ job, d'.jobs.find? uid = some job) → IsStarted uid (w.write d')

def claimLaw : WorkLaw jobUnder Change where
  holds _ := ClaimWork
  none _ d := ⟨fun _ _ h => h, by simp, by simp⟩
  rows {c d d' w} hrows h := by
    refine ⟨h.started, h.nodup, fun uid hu => ?_⟩
    obtain ⟨hlock, ⟨job, hjob, hpending⟩, hstarts⟩ := h.claims uid hu
    have hrow : d'.jobs.find? uid = d.jobs.find? uid := hrows _ hlock
    exact ⟨hlock, ⟨job, hrow.trans hjob, hpending⟩, hstarts⟩

theorem publishes_claims {ι : Type} [DecidableEq ι] :
    claimLaw.Publishes (ι := ι) (V := Body) ClaimsOnce StaysStarted where
  quiet hdb uid h := by
    rw [hdb]
    exact h
  commit {i s s'} hlaw h hdb hcommits := by
    have hkeep : ∀ uid, IsStarted uid s.db → IsStarted uid s'.db := by
      intro uid hstarted
      rw [hdb]
      exact hlaw.started s.db uid hstarted
    let new := (s.tx i).work.changes.filterMap Change.claimed?
    have hnew : ∀ uid ∈ new, IsStarted uid s'.db ∧ ∀ j, uid ∉ claimsOf (s.commits j) := by
      intro uid hu
      obtain ⟨-, ⟨job, hjob, hpending⟩, hstarts⟩ := hlaw.claims uid hu
      refine ⟨hdb ▸ hstarts s.db ⟨job, hjob⟩, fun j hmem => ?_⟩
      -- a job that was claimed before is not pending
      obtain ⟨job', hjob', hne⟩ := h.started j uid hmem
      cases hjob.symm.trans hjob'
      exact hne hpending
    have hself : claimsOf (s'.commits i) = claimsOf (s.commits i) ++ new := by
      rw [hcommits, Function.update_self, claimsOf_concat]
    have hother : ∀ j, j ≠ i → s'.commits j = s.commits j := by
      intro j hj
      rw [hcommits, Function.update_of_ne hj]
    have hcases : ∀ j uid, uid ∈ claimsOf (s'.commits j) →
        uid ∈ claimsOf (s.commits j) ∨ j = i ∧ uid ∈ new := by
      intro j uid hu
      by_cases hj : j = i
      · subst hj
        rw [hself] at hu
        rcases List.mem_append.1 hu with hold | hu
        · exact .inl hold
        · exact .inr ⟨rfl, hu⟩
      · rw [hother j hj] at hu
        exact .inl hu
    refine ⟨⟨fun j => ?_, fun j k hjk uid hj hk => ?_, fun j uid hu => ?_⟩, hkeep⟩
    · by_cases hj : j = i
      · subst hj
        rw [hself, List.nodup_append']
        refine ⟨h.nodup j, hlaw.nodup, fun uid hold hu => ?_⟩
        exact (hnew uid hu).2 j hold
      · rw [hother j hj]
        exact h.nodup j
    · rcases hcases j uid hj with hold | ⟨rfl, hu⟩
      · rcases hcases k uid hk with hold' | ⟨rfl, hu'⟩
        · exact h.disjoint j k hjk uid hold hold'
        · exact (hnew uid hu').2 j hold
      · rcases hcases k uid hk with hold' | ⟨rfl, -⟩
        · exact (hnew uid hu).2 k hold'
        · exact hjk rfl
    · rcases hcases j uid hu with hold | ⟨rfl, hu⟩
      · exact hkeep uid (h.started j uid hold)
      · exact (hnew uid hu).1

/-! ## Commands that claim nothing -/

/-- The effect starts no job over and claims none. -/
structure KeepsStarted {R : Type} (eff : Effect Db RowKey Change R) : Prop where
  write : ∀ d uid, IsStarted uid d → IsStarted uid (eff.write d)
  changes : eff.changes.filterMap Change.claimed? = []

/-- A command that locks the jobs it changes, starts none over and claims none. -/
def Command.Unclaiming : {β : Type} → Command β → Prop
  | _, .sql st => st.Confined jobUnder ∧ ∀ locked d eff, st locked d = .ok eff → KeepsStarted eff
  | _, _ => True

theorem Command.Unclaiming.confined {β : Type} {c : Command β} (h : Command.Unclaiming c) :
    c.Confined jobUnder := by
  cases c with
  | sql st => exact h.1
  | _ => trivial

theorem Command.Unclaiming.of_spares {β : Type} {c : Command β} (h : Command.SparesJobs c) :
    Command.Unclaiming c := by
  cases c with
  | sql st =>
      refine ⟨SparesJobs.confined h, fun locked d eff heff => ?_⟩
      have hspares := h.spares locked d eff heff
      refine ⟨fun d' uid hstarted => ?_, claimed?_of_jobsChanged hspares.changes⟩
      unfold IsStarted
      rw [hspares.write]
      exact hstarted
  | _ => trivial

theorem uses_unclaiming {R : Type} {st : Statement R} (hc : st.Confined jobUnder)
    (h : ∀ locked d eff, st locked d = .ok eff → KeepsStarted eff) :
    (execute st).Uses Command.Unclaiming := Prog.uses_perform ⟨hc, h⟩

theorem uses_read {R : Type} (f : Db → R) : (select f).Uses Command.Unclaiming :=
  Prog.uses_perform (Command.Unclaiming.of_spares (sparesJobs_read f))

/-- An update after which no job is pending that was not before starts none over. -/
theorem isStarted_rewriteJobs {uids : List String} {f : Rewrite Job.uid}
    (hf : ∀ j, j.status ≠ .pending → ((f.apply j).getD j).status ≠ .pending) {d : Db}
    {uid : String} (h : IsStarted uid d) : IsStarted uid (rewriteJobs uids f d) := by
  obtain ⟨job, hjob, hne⟩ := h
  refine ⟨_, by rw [find?_rewriteJobs, hjob]; rfl, ?_⟩
  dsimp only
  split
  · exact hf job hne
  · exact hne

theorem uses_updateJobs {p : Job → Bool} {f : Rewrite Job.uid}
    (hf : ∀ j, j.status ≠ .pending → ((f.apply j).getD j).status ≠ .pending) :
    (execute (updateJobs p f)).Uses Command.Unclaiming := by
  apply uses_unclaiming (confined_updateJobs p f)
  intro locked d eff heff
  cases heff
  exact ⟨fun d' uid => isStarted_rewriteJobs hf, by simp [Change.claimed?]⟩

theorem uses_insertJob (job : Job) : (execute (insertJob job)).Uses Command.Unclaiming := by
  apply uses_unclaiming (confined_insertJob job)
  intro locked d eff heff
  obtain ⟨rfl, -⟩ := insertJob_eq_ok heff
  refine ⟨fun d' uid hstarted => ?_, by simp [Change.claimed?]⟩
  obtain ⟨job', hjob', hne⟩ := hstarted
  exact ⟨job', Table.find?_insert_of_some hjob', hne⟩

theorem uses_pooledSession {α : Type} {p : App α} (h : p.Uses Command.Unclaiming) :
    (pooledSession p).Uses Command.Unclaiming := by
  have hrollback : (Prog.perform .rollback : App Unit).Uses Command.Unclaiming :=
    Prog.uses_perform (by exact trivial)
  apply hrollback.bind
  intro _
  apply h.attempt.bind
  intro r
  exact hrollback.bind fun _ => Prog.uses_ofExcept r

theorem uses_commit : (commit : App Unit).Uses Command.Unclaiming :=
  Prog.uses_perform (by exact trivial)

section Programs

variable (cfg : Settings) (be : Backend) (now : Timestamp) (newUid : ℕ → String)

theorem uses_cleanupOrphanedJobs : (cleanupOrphanedJobs now).Uses Command.Unclaiming := by
  apply Prog.Uses.bind
  · apply uses_unclaiming (confined_failOrphans now)
    intro locked d eff heff
    cases heff
    refine ⟨fun d' uid => isStarted_rewriteJobs fun j _ => ?_, by simp [Change.claimed?]⟩
    simp [setOrphaned, Rewrite.total]
  · intro uids
    apply uses_commit.bind
    exact fun _ => by trivial

theorem uses_processClaimed (uid : String) :
    (processClaimed cfg be now newUid uid).Uses Command.Unclaiming := by
  have hreload : (reloadJob uid).Uses Command.Unclaiming := by
    apply (uses_read _).bind
    intro found
    cases found <;> trivial
  apply hreload.bind
  intro job
  apply (uses_read _).bind
  intro _
  have hhandler : (runHandler cfg be now newUid job.payload).Uses Command.Unclaiming :=
    (uses_runHandler cfg be now newUid job.payload).mono fun _ => Command.Unclaiming.of_spares
  apply hhandler.attempt.bind
  intro outcome
  apply Prog.Uses.bind
  · apply Prog.Uses.bind
    · apply uses_updateJobs
      intro j hne
      cases outcome with
      | ok result => simp [recordOutcome, Rewrite.total]
      | error e =>
          by_cases hexc : e.isException = true
          · simp [recordOutcome, Rewrite.total, hexc]
          · simpa [recordOutcome, Rewrite.total, hexc] using hne
    · intro uids
      split <;> trivial
  · intro _
    apply uses_commit.bind
    intro _
    cases outcome with
    | ok result => trivial
    | error e =>
        dsimp only
        split <;> trivial

theorem uses_enqueueJob (uid : String) (payload : JobPayload) (staffUid : String) :
    (enqueueJob now uid payload staffUid).Uses Command.Unclaiming := by
  apply (uses_insertJob _).bind
  intro _
  apply uses_commit.bind
  intro _
  apply Prog.Uses.bind
  · apply (uses_read _).bind
    intro found
    cases found <;> trivial
  · exact fun _ => by trivial

end Programs

/-! ## The claim of a job -/

section Claim

variable {ι : Type} [DecidableEq ι] {i : ι} {s s' : State ι} {atStore : Exc → Prop}

/-- The workers of all processes, whose ordinary errors are `Exception`s. -/
abbrev faultyWorkers (ι : Type) [DecidableEq ι] (atStore : Exc → Prop) :
    System ι Exc Command (State ι) :=
  faulty (fun e => e.isException = true) atStore

/-- Processes that lock what they claim. -/
abbrev claimTerms (ι : Type) [DecidableEq ι] : Terms ι Db RowKey Change Body :=
  workTerms claimLaw ClaimsOnce StaysStarted

theorem transacting_workers :
    Transacting jobUnder (faultyWorkers ι atStore) := transacting_faulty jobUnder

theorem claimTerms_fits : (claimTerms ι).contract.Fits (faultyWorkers ι atStore) :=
  workTerms_fair.fits transacting_workers.toFramed

/-- The jobs session `i` has claimed. -/
def claimedBy (i : ι) (s : State ι) : List String := claimsOf (s.commits i)

/-- Process `i` has claimed the jobs of the list, in this order. -/
def HasClaimed (i : ι) (uids : List String) (s : State ι) : Prop :=
  uids.Sublist (claimedBy i s)

theorem stable_hasClaimed {uids : List String} :
    Stable (claimTerms ι).contract i (HasClaimed i uids) := by
  rintro s s' - ⟨hund, -⟩ h
  unfold HasClaimed claimedBy
  rw [hund.commits]
  exact h

/-- What a process has claimed stays claimed. -/
theorem HasClaimed.step {β : Type} {c : Command β} {r : Except Exc β} {uids : List String}
    (h : HasClaimed i uids s) (hs : (faultyWorkers ι atStore).step i c s r s') :
    HasClaimed i uids s' := by
  unfold HasClaimed claimedBy
  cases transacting_workers.publishes hs with
  | quiet _ hcommits =>
      rw [hcommits]
      exact h
  | commit _ _ hcommits _ =>
      rw [hcommits, claimsOf_concat]
      exact h.trans (List.sublist_append_left _ _)

/-- Work that claims nothing goes on claiming nothing new. -/
theorem ClaimWork.andThen {R : Type} {d : Db} {w : Work Db RowKey Change}
    {eff : Effect Db RowKey Change R} (h : ClaimWork d w) (heff : KeepsStarted eff) :
    ClaimWork d (w.andThen eff) := by
  have hsame : (w.andThen eff).changes.filterMap Change.claimed? =
      w.changes.filterMap Change.claimed? := by
    simp [Work.andThen, heff.changes]
  constructor
  · intro d' uid hstarted
    exact heff.write _ uid (h.started d' uid hstarted)
  · rw [hsame]
    exact h.nodup
  · rw [hsame]
    intro uid hu
    obtain ⟨hlock, hpending, hstarts⟩ := h.claims uid hu
    refine ⟨List.mem_append_left _ hlock, hpending, fun d' hjob => ?_⟩
    exact heff.write _ uid (hstarts d' hjob)

/-- A program that claims nothing keeps what every command keeps. -/
theorem triple_keeps {α : Type} {A : State ι → Prop} (hA : Stable (claimTerms ι).contract i A)
    (hkeep : ∀ {β : Type} {c : Command β} {s s' : State ι} {r : Except Exc β}, A s →
      (faultyWorkers ι atStore).step i c s r s' → A s') {p : App α}
    (hp : p.Uses Command.Unclaiming) :
    Triple (faultyWorkers ι atStore) (claimTerms ι).contract i A p fun _ => A := by
  apply Triple.of_uses hA _ hp
  intro β c hc s r s' hi h hs
  obtain ⟨hinv, hown⟩ := publishes_claims.step transacting_workers hc.confined hi hs (by
    intro w hw hext
    cases c with
    | sql st =>
        obtain ⟨-, eff, heff, rfl⟩ := hext
        exact (hi.2.1 i _ (List.mem_cons_self ..)).andThen (hc.2 _ _ _ heff)
    | _ => exact hext.elim)
  exact ⟨hinv, hown, hkeep h hs⟩

/-- A program that claims nothing keeps what the process has claimed. -/
theorem triple_unclaiming {α : Type} {p : App α} (hp : p.Uses Command.Unclaiming)
    (uids : List String) :
    Triple (faultyWorkers ι atStore) (claimTerms ι).contract i (HasClaimed i uids) p
      fun _ => HasClaimed i uids :=
  triple_keeps stable_hasClaimed HasClaimed.step hp

/-- Process `i` has locked the pending jobs of the list and written nothing, or its transaction
is gone. -/
def HasLocked (i : ι) (uids : List String) (s : State ι) : Prop :=
  s.tx i = { status := .lost } ∨ s.tx i = { work := ⟨id, uids.map RowKey.job, []⟩ } ∧
    ∀ uid ∈ uids, s.holder (.job uid) = some i ∧ IsPending uid s.db

theorem stable_hasLocked {uids : List String} :
    Stable (claimTerms ι).contract i (HasLocked i uids) := by
  rintro s s' - ⟨hund, hkeep⟩ h
  rcases hund.tx with ⟨htx, hheld⟩ | hlost
  · rcases h with hlost | ⟨hwork, hrows⟩
    · exact .inl (htx.trans hlost)
    · rcases hkeep with hlost | hsame
      · exact .inl hlost
      · refine .inr ⟨htx.trans hwork, fun uid hu => ?_⟩
        obtain ⟨hholder, job, hjob, hpending⟩ := hrows uid hu
        have hrow : s'.db.jobs.find? uid = s.db.jobs.find? uid := hsame _ hholder
        exact ⟨hheld _ hholder, job, hrow.trans hjob, hpending⟩
  · exact .inl hlost

/-- Process `i` is about to commit the claim of a job, or its transaction is gone. -/
def AboutToClaim (i : ι) (uid : String) (s : State ι) : Prop :=
  s.tx i = { status := .lost } ∨
    (s.tx i).status = .active ∧ (s.tx i).work.changes.filterMap Change.claimed? = [uid]

theorem stable_aboutToClaim {uid : String} :
    Stable (claimTerms ι).contract i (AboutToClaim i uid) := by
  rintro s s' - ⟨hund, -⟩ h
  rcases hund.tx with ⟨htx, -⟩ | hlost
  · unfold AboutToClaim
    rw [htx]
    exact h
  · exact .inl hlost

/-- The process has claimed `uids`; if it returns, `M` holds too. -/
def Claims {α : Type} (i : ι) (uids : List String) (M : α → State ι → Prop) (r : Except Exc α)
    (s : State ι) : Prop := HasClaimed i uids s ∧ Returns M r s

theorem stable_claims {α : Type} {uids : List String} {M : α → State ι → Prop}
    (hM : ∀ a, Stable (claimTerms ι).contract i (M a)) (r : Except Exc α) :
    Stable (claimTerms ι).contract i (Claims i uids M r) := by
  rintro s s' hi hr ⟨h, hm⟩
  refine ⟨stable_hasClaimed s s' hi hr h, ?_⟩
  cases r with
  | ok a => exact hM a s s' hi hr hm
  | error e => trivial

/-- One command of a claim. -/
theorem triple_claimStep {R : Type} {c : Command R} {uids : List String} {P : State ι → Prop}
    {M : R → State ι → Prop} (hc : c.Confined jobUnder)
    (hP : Stable (claimTerms ι).contract i P) (hM : ∀ a, Stable (claimTerms ι).contract i (M a))
    (hlaw : ∀ s w, P s → c.Extends i s w → ClaimWork s.db w)
    (hstep : ∀ s a s', P s → HasClaimed i uids s → exec i c s = some (.ok a, s') → M a s') :
    Triple (faultyWorkers ι atStore) (claimTerms ι).contract i
      (fun s => HasClaimed i uids s ∧ P s) (.perform c) (Claims i uids M) := by
  apply Triple.workAct publishes_claims transacting_workers hc
  · rintro s s' hi hr ⟨h, hp⟩
    exact ⟨stable_hasClaimed s s' hi hr h, hP s s' hi hr hp⟩
  · exact stable_claims hM
  · rintro s r s' - ⟨h, hp⟩ hs
    refine ⟨fun w _ hext => hlaw s w hp hext, h.step hs, ?_⟩
    cases r with
    | ok a => exact hstep s a s' hp h (transacting_workers.answers hs)
    | error e => trivial

/-- One part of a claim after another. -/
theorem Triple.bind_claims {α β : Type} {uids : List String} {P : State ι → Prop} {p : App α}
    {f : α → App β} {Q : Except Exc β → State ι → Prop} (M : α → State ι → Prop)
    (hp : Triple (faultyWorkers ι atStore) (claimTerms ι).contract i P p (Claims i uids M))
    (hf : ∀ a, Triple (faultyWorkers ι atStore) (claimTerms ι).contract i
      (fun s => HasClaimed i uids s ∧ M a s) (f a) Q)
    (hQ : ∀ e s, HasClaimed i uids s → Q (.error e) s) :
    Triple (faultyWorkers ι atStore) (claimTerms ι).contract i P (p.bind f) Q := by
  refine Triple.bind claimTerms_fits _ (hp.conseq (fun _ _ h => h) fun r s _ h => ?_) hf
  cases r with
  | ok a => exact h
  | error e => exact hQ e s h.1

/-- Work that has written nothing yet. -/
theorem claimWork_of_clean {d : Db} {w : Work Db RowKey Change} (hwrite : w.write = id)
    (hchanges : w.changes = []) : ClaimWork d w := by
  constructor
  · intro d' uid h
    rw [hwrite]
    exact h
  · simp [hchanges]
  · simp [hchanges]

omit [DecidableEq ι] in
theorem HasLocked.of_active {uids : List String} (h : HasLocked i uids s)
    (hactive : (s.tx i).status = .active) :
    s.tx i = { work := ⟨id, uids.map RowKey.job, []⟩ } ∧
      ∀ uid ∈ uids, s.holder (.job uid) = some i ∧ IsPending uid s.db := by
  rcases h with hlost | h
  · rw [hlost] at hactive
    cases hactive
  · exact h

omit [DecidableEq ι] in
theorem HasLocked.view {uids : List String} (h : HasLocked i uids s)
    (hactive : (s.tx i).status = .active) : s.view i = s.db := by
  unfold World.view
  rw [(h.of_active hactive).1]
  rfl

/-- The first query of a claim. -/
theorem triple_pendingUids {R : Type} (f : Db → R) (uids : List String) :
    Triple (faultyWorkers ι atStore) (claimTerms ι).contract i
      (fun s => HasClaimed i uids s ∧ HasLocked i [] s) (select f)
      (Claims i uids fun _ => HasLocked i []) := by
  apply triple_claimStep (Cmd.confined_sql (Stmt.confined_read f)) stable_hasLocked
  · exact fun _ => stable_hasLocked
  · rintro s w h ⟨hactive, eff, heff, rfl⟩
    cases heff
    rw [Work.andThen, (h.of_active hactive).1]
    exact claimWork_of_clean rfl rfl
  · intro s a s' h _ hexec
    rcases exec_sql_cases hexec with ⟨-, he, -⟩ | ⟨-, e, -, he, -⟩ | ⟨hactive, eff, heff, -, -, rfl⟩
    · obtain ⟨e, he⟩ := he
      cases he
    · cases he
    · cases heff
      refine .inr ⟨?_, by simp⟩
      rw [(h.of_active hactive).1]
      exact Function.update_self ..

/-- What `lockPending` answers. -/
theorem lockPending_eq_ok {uid : String} {locked : RowKey → Bool} {d : Db}
    {eff : Effect Db RowKey Change (Option Job)} (h : lockPending uid locked d = .ok eff) :
    eff = ⟨none, id, [], []⟩ ∨ ∃ job, d.jobs.find? uid = some job ∧ job.status = .pending ∧
      eff = ⟨some job, id, [.job uid], []⟩ := by
  cases h
  cases hjob : (d.jobs.find? uid).filter fun j => j.status == .pending && !locked (.job uid) with
  | none => exact .inl rfl
  | some job =>
      obtain ⟨hfind, hfree⟩ := Option.filter_eq_some_iff.1 hjob
      simp only [Bool.and_eq_true, beq_iff_eq] at hfree
      exact .inr ⟨job, hfind, hfree.1, rfl⟩

/-- The jobs a claim has locked: the one it goes on with, or none. -/
def locks (found : Option Job) : List String := (found.map Job.uid).toList

theorem triple_lockPending (uid : String) (uids : List String) :
    Triple (faultyWorkers ι atStore) (claimTerms ι).contract i
      (fun s => HasClaimed i uids s ∧ HasLocked i [] s) (execute (lockPending uid))
      (Claims i uids fun found => HasLocked i (locks found)) := by
  apply triple_claimStep (Cmd.confined_sql (confined_lockPending uid)) stable_hasLocked
  · exact fun _ => stable_hasLocked
  · rintro s w h ⟨hactive, eff, heff, rfl⟩
    rw [Work.andThen, (h.of_active hactive).1]
    rcases lockPending_eq_ok heff with rfl | ⟨job, -, -, rfl⟩
    · exact claimWork_of_clean rfl rfl
    · exact claimWork_of_clean rfl rfl
  · intro s a s' h _ hexec
    rcases exec_sql_cases hexec with ⟨-, he, -⟩ | ⟨-, e, -, he, -⟩ | ⟨hactive, eff,
      heff, -, ha, rfl⟩
    · obtain ⟨e, he⟩ := he
      cases he
    · cases he
    · rw [h.view hactive] at heff
      rcases lockPending_eq_ok heff with rfl | ⟨job, hjob, hpending, rfl⟩
      · cases ha
        refine .inr ⟨?_, by simp [locks]⟩
        rw [(h.of_active hactive).1]
        exact Function.update_self ..
      · cases ha
        obtain rfl := uid_of_find?_jobs hjob
        refine .inr ⟨?_, ?_⟩
        · rw [(h.of_active hactive).1]
          exact Function.update_self ..
        · intro uid hu
          obtain rfl : uid = job.uid := by simpa [locks] using hu
          exact ⟨if_pos (by simp), job, hjob, hpending⟩

theorem triple_lockFirst (candidates uids : List String) :
    Triple (faultyWorkers ι atStore) (claimTerms ι).contract i
      (fun s => HasClaimed i uids s ∧ HasLocked i [] s) (lockFirst candidates)
      (Claims i uids fun found => HasLocked i (locks found)) := by
  induction candidates with
  | nil =>
      intro s _ h s' hi hr
      exact ⟨stable_hasClaimed s s' hi hr h.1, stable_hasLocked s s' hi hr h.2⟩
  | cons uid candidates ih =>
      apply Triple.bind_claims _ (triple_lockPending uid uids)
      · intro found
        cases found with
        | some job =>
            intro s _ h s' hi hr
            exact ⟨stable_hasClaimed s s' hi hr h.1, stable_hasLocked s s' hi hr h.2⟩
        | none => exact ih
      · exact fun e s h => ⟨h, trivial⟩

theorem triple_lockPendingJob (uids : List String) :
    Triple (faultyWorkers ι atStore) (claimTerms ι).contract i
      (fun s => HasClaimed i uids s ∧ HasLocked i [] s) lockPendingJob
      (Claims i uids fun found => HasLocked i (locks found)) := by
  apply Triple.bind_claims _ (triple_pendingUids _ uids)
  · exact fun candidates => triple_lockFirst candidates uids
  · exact fun e s h => ⟨h, trivial⟩

/-- The flush of a claim: what is pending then claims the job that the process has locked. -/
theorem triple_startJob (now : Timestamp) (uid : String) (uids : List String) :
    Triple (faultyWorkers ι atStore) (claimTerms ι).contract i
      (fun s => HasClaimed i uids s ∧ HasLocked i [uid] s) (execute (startJob now uid))
      (Claims i uids fun _ => AboutToClaim i uid) := by
  have huids : ∀ {s : State ι}, HasLocked i [uid] s → (s.tx i).status = .active →
      (s.db.jobs.select fun j => j.uid == uid).map Job.uid = [uid] := by
    intro s h hactive
    obtain ⟨-, job, hjob, -⟩ := (h.of_active hactive).2 uid (List.mem_singleton_self uid)
    have hnodup : ((s.db.jobs.select fun j => j.uid == uid).map Job.uid).Nodup :=
      (List.Sublist.map Job.uid List.filter_sublist).nodup s.db.jobs.nodup
    apply List.perm_singleton.1
    apply (List.perm_ext_iff_of_nodup hnodup (List.nodup_singleton uid)).2
    intro u
    rw [select_job_uids, List.mem_singleton]
    exact ⟨fun hu => hu.1, fun hu => ⟨hu, job, hjob⟩⟩
  apply triple_claimStep (Cmd.confined_sql (confined_startJob now uid)) stable_hasLocked
  · exact fun _ => stable_aboutToClaim
  · rintro s w h ⟨hactive, eff, heff, rfl⟩
    rw [h.view hactive] at heff
    cases heff
    rw [Work.andThen, (h.of_active hactive).1, huids h hactive]
    obtain ⟨-, hpending⟩ := (h.of_active hactive).2 uid (List.mem_singleton_self uid)
    constructor
    · intro d' u hstarted
      exact isStarted_rewriteJobs (by simp [setRunning, Rewrite.total]) hstarted
    · simp [Change.claimed?]
    · intro u hu
      obtain rfl : u = uid := by simpa [Change.claimed?] using hu
      refine ⟨by simp, hpending, fun d' hjob' => ?_⟩
      obtain ⟨job', hjob'⟩ := hjob'
      refine ⟨_, by simp only [Function.comp, id]; rw [find?_rewriteJobs, hjob']; rfl, ?_⟩
      simp [uid_of_find?_jobs hjob', setRunning, Rewrite.total]
  · intro s a s' h _ hexec
    rcases exec_sql_cases hexec with ⟨-, he, -⟩ | ⟨-, e, -, he, -⟩ | ⟨hactive, eff,
      heff, -, ha, rfl⟩
    · obtain ⟨e, he⟩ := he
      cases he
    · cases he
    · rw [h.view hactive] at heff
      cases heff
      refine .inr ?_
      rw [(h.of_active hactive).1, huids h hactive]
      simp [World.setTx, Change.claimed?]

/-- The commit of a claim, where it does not raise. -/
theorem triple_commit_claim (uid : String) (uids : List String) :
    Triple (faultyWorkers ι atStore) (claimTerms ι).contract i
      (fun s => HasClaimed i uids s ∧ AboutToClaim i uid s) commit
      (Claims i uids fun _ => HasClaimed i (uids ++ [uid])) := by
  apply triple_claimStep (c := .commit) (by exact trivial) stable_aboutToClaim
  · exact fun _ => stable_hasClaimed
  · exact fun s w _ hext => hext.elim
  · intro s a s' h hclaimed hexec
    rcases exec_commit_cases hexec with ⟨hst, -, rfl⟩ | ⟨hst, -, -⟩ | ⟨-, he, -⟩
    · rcases h with hlost | ⟨-, hchanges⟩
      · rw [hlost] at hst
        cases hst
      · unfold HasClaimed claimedBy
        rw [commits_execCommit, claimsOf_concat, hchanges]
        exact hclaimed.append_right [uid]
    · rcases h with hlost | ⟨hactive, -⟩
      · rw [hlost] at hst
        cases hst
      · rw [hactive] at hst
        cases hst
    · obtain ⟨e, he⟩ := he
      cases he

theorem triple_refreshJob (uid : String) (uids : List String) :
    Triple (faultyWorkers ι atStore) (claimTerms ι).contract i (HasClaimed i (uids ++ [uid]))
      ((refreshJob uid).bind fun fresh => .ret (some fresh))
      (Claims i uids fun found => HasClaimed i (uids ++ locks found)) := by
  have hshorter : ∀ {s : State ι}, HasClaimed i (uids ++ [uid]) s → HasClaimed i uids s :=
    fun h => (List.sublist_append_left _ _).trans h
  have hselect : Triple (faultyWorkers ι atStore) (claimTerms ι).contract i
      (HasClaimed i (uids ++ [uid])) (select fun d => d.jobs.find? uid)
      fun r s => HasClaimed i (uids ++ [uid]) s ∧ ∀ job, r = .ok (some job) → job.uid = uid := by
    apply Triple.perform stable_hasClaimed
    · rintro r s s' hi hr ⟨h, hr'⟩
      exact ⟨stable_hasClaimed s s' hi hr h, hr'⟩
    · intro s r s' hi h hs
      obtain ⟨hinv, hown⟩ := publishes_claims.step transacting_workers
        (Cmd.confined_sql (Stmt.confined_read _)) hi hs (by
          rintro w - ⟨-, eff, heff, rfl⟩
          cases heff
          exact (hi.2.1 i _ (List.mem_cons_self ..)).andThen ⟨fun _ _ h => h, rfl⟩)
      refine ⟨hinv, hown, h.step hs, ?_⟩
      rintro job rfl
      have hexec := transacting_workers.answers hs
      rcases exec_sql_cases hexec with ⟨-, he, -⟩ | ⟨-, e, -, he, -⟩ | ⟨-, eff, heff, -, ha, -⟩
      · obtain ⟨e, he⟩ := he
        cases he
      · cases he
      · cases heff
        have hfind : (s.view i).jobs.find? uid = some job := (Except.ok.inj ha).symm
        exact uid_of_find?_jobs hfind
  unfold refreshJob
  rw [Prog.bind_eq_bind, Prog.bind_assoc]
  refine Triple.bind claimTerms_fits (fun found s => HasClaimed i (uids ++ [uid]) s ∧
    ∀ job, found = some job → job.uid = uid) (hselect.conseq (fun _ _ h => h) fun r s _ h => ?_)
    fun found => ?_
  · cases r with
    | ok found => exact ⟨h.1, fun job hjob => h.2 job (by rw [hjob])⟩
    | error e => exact ⟨hshorter h.1, trivial⟩
  · cases found with
    | some job =>
        rintro s - ⟨h, huid⟩ s' hi hr
        have h' := stable_hasClaimed s s' hi hr h
        refine ⟨hshorter h', ?_⟩
        have hjob : locks (some job) = [uid] := by simp [locks, huid job rfl]
        show HasClaimed i (uids ++ locks (some job)) s'
        rw [hjob]
        exact h'
    | none =>
        rintro s - ⟨h, -⟩ s' hi hr
        exact ⟨hshorter (stable_hasClaimed s s' hi hr h), trivial⟩

theorem triple_claimNextJob (now : Timestamp) (uids : List String) :
    Triple (faultyWorkers ι atStore) (claimTerms ι).contract i
      (fun s => HasClaimed i uids s ∧ HasLocked i [] s) (claimNextJob now)
      (Claims i uids fun found => HasClaimed i (uids ++ locks found)) := by
  apply Triple.bind_claims _ (triple_lockPendingJob uids)
  · intro found
    cases found with
    | none =>
        rintro s - ⟨h, -⟩ s' hi hr
        have h' := stable_hasClaimed s s' hi hr h
        refine ⟨h', ?_⟩
        show HasClaimed i (uids ++ []) s'
        rw [List.append_nil]
        exact h'
    | some job =>
        apply Triple.bind_claims _ (triple_startJob now job.uid uids)
        · intro started
          split
          · intro s _ h s' hi hr
            exact ⟨stable_hasClaimed s s' hi hr h.1, trivial⟩
          · apply Triple.bind_claims _ (triple_commit_claim job.uid uids)
            · intro _ s hi h
              exact triple_refreshJob job.uid uids s hi h.2
            · exact fun e s h => ⟨h, trivial⟩
        · exact fun e s h => ⟨h, trivial⟩
  · exact fun e s h => ⟨h, trivial⟩

/-- A fresh connection has no transaction on it. -/
theorem triple_checkout (uids : List String) :
    Triple (faultyWorkers ι atStore) (claimTerms ι).contract i (HasClaimed i uids)
      (Prog.perform .rollback : App Unit) (Claims i uids fun _ => HasLocked i []) := by
  have hstep : Triple (faultyWorkers ι atStore) (claimTerms ι).contract i
      (fun s => HasClaimed i uids s ∧ True) (Prog.perform .rollback : App Unit)
      (Claims i uids fun _ => HasLocked i []) := by
    apply triple_claimStep (c := .rollback) (by exact trivial) fun _ _ _ _ h => h
    · exact fun _ => stable_hasLocked
    · exact fun s w _ hext => hext.elim
    · intro s a s' _ _ hexec
      obtain ⟨-, rfl⟩ := exec_rollback_eq hexec
      refine .inr ⟨?_, by simp⟩
      exact Function.update_self ..
  exact hstep.conseq (fun s _ h => ⟨h, trivial⟩) fun _ _ _ h => h

/-- The claim phase up to its outcome. -/
theorem triple_claimSession (now : Timestamp) (uids : List String) :
    Triple (faultyWorkers ι atStore) (claimTerms ι).contract i (HasClaimed i uids)
      (pooledSession (claimNextJob now))
      (Claims i uids fun found => HasClaimed i (uids ++ locks found)) := by
  apply Triple.bind_claims _ (triple_checkout uids)
  · intro _
    apply triple_session transacting_workers.toFramed workTerms_fair
      (stable_claims fun _ => stable_hasClaimed) (triple_claimNextJob now uids)
    -- the rollback at the end claims nothing
    intro r
    have hrollback : Triple (faultyWorkers ι atStore) (claimTerms ι).contract i
        (Claims i uids (fun found => HasClaimed i (uids ++ locks found)) r)
        (Prog.perform .rollback : App Unit)
        fun _ => Claims i uids (fun found => HasClaimed i (uids ++ locks found)) r := by
      apply triple_keeps (stable_claims (fun _ => stable_hasClaimed) r)
      · intro β c s s' out h hs
        refine ⟨h.1.step hs, ?_⟩
        cases r with
        | ok found => exact HasClaimed.step h.2 hs
        | error e => trivial
      · exact Prog.uses_perform (by exact trivial)
    refine hrollback.conseq (fun _ _ h => h) fun out s _ h => ?_
    cases out with
    | ok u => exact h
    | error e => exact ⟨h.1, trivial⟩
  · exact fun e s h => ⟨h, trivial⟩

end Claim

/-! ## The phases -/

section Phases

variable {ι : Type} [DecidableEq ι] {i : ι} {atStore : Exc → Prop} (cfg : Settings) (be : Backend)
  (now : Timestamp) (newUid : ℕ → String)

/-- The jobs whose handlers the phases run. -/
def processedIn (phases : List Phase) : List String := phases.filterMap Phase.processed?

/-- A process enters a phase that runs a handler when it has claimed the job. -/
def MayEnter (i : ι) (before : List Phase) (φ : Phase) (s : State ι) : Prop :=
  HasClaimed i (processedIn (before ++ [φ])) s

theorem processedIn_append (before after : List Phase) :
    processedIn (before ++ after) = processedIn before ++ processedIn after :=
  List.filterMap_append

/-- A phase that runs no handler may be entered at any time. -/
theorem mayEnter_of_idle {before : List Phase} {φ : Phase} {s : State ι}
    (hφ : φ.processed? = none) (h : HasClaimed i (processedIn before) s) :
    MayEnter i before φ s := by
  unfold MayEnter
  rw [processedIn_append]
  simpa [processedIn, hφ] using h

/-- The end of a cycle. -/
theorem triple_nextCycle {α : Type} {before : List Phase} {next : α → Phase}
    {M : α → State ι → Prop} (hstable : ∀ a, Stable (claimTerms ι).contract i (M a))
    (hM : ∀ a s, HasClaimed i (processedIn before) s → M a s → MayEnter i before (next a) s)
    (r : Except Exc α) :
    Triple (faultyWorkers ι atStore) (claimTerms ι).contract i
      (Claims i (processedIn before) M r) (nextCycle next r) (Returns (MayEnter i before)) := by
  intro s hi h
  cases r with
  | ok a =>
      intro s' hi' hr
      obtain ⟨h', hm⟩ := stable_claims hstable (.ok a) s s' hi' hr h
      exact hM a s' h' hm
  | error e =>
      simp only [nextCycle]
      split
      · intro s' hi' hr
        exact mayEnter_of_idle rfl (stable_hasClaimed s s' hi' hr h.1)
      · exact fun _ _ _ => trivial

/-- A session that claims nothing, and the phase after it. -/
theorem triple_thenPhase {α : Type} {before : List Phase} {p : App α} {φ : Phase}
    (hp : p.Uses Command.Unclaiming) (hφ : φ.processed? = none) :
    Triple (faultyWorkers ι atStore) (claimTerms ι).contract i
      (HasClaimed i (processedIn before)) (p.bind fun _ => .ret φ)
      (Returns (MayEnter i before)) := by
  apply Triple.bind_returns claimTerms_fits (fun _ => HasClaimed i (processedIn before))
  · refine (triple_unclaiming hp _).conseq (fun _ _ h => h) fun r s _ h => ?_
    cases r with
    | ok a => exact h
    | error e => trivial
  · intro _
    exact Triple.ret_returns stable_hasClaimed fun s _ h => mayEnter_of_idle hφ h

/-- Every phase hands over to one the process may enter. -/
theorem triple_phaseProgram (before : List Phase) (φ : Phase) :
    Triple (faultyWorkers ι atStore) (claimTerms ι).contract i (MayEnter i before φ)
      (phaseProgram cfg be now newUid φ) (Returns (MayEnter i (before ++ [φ]))) := by
  cases φ with
  | boot =>
      exact triple_thenPhase (uses_pooledSession (uses_cleanupOrphanedJobs now)) rfl
  | claim =>
      apply Triple.bind_attempt claimTerms_fits (triple_claimSession now _)
      apply triple_nextCycle fun _ => stable_hasClaimed
      intro found s h hfound
      cases found with
      | none => exact mayEnter_of_idle rfl h
      | some job =>
          unfold MayEnter
          rw [processedIn_append]
          exact hfound
  | process uid =>
      apply Triple.bind_attempt claimTerms_fits
        (triple_unclaiming (uses_pooledSession (uses_processClaimed cfg be now newUid uid)) _)
      intro r
      refine (triple_nextCycle (M := fun _ _ => True) (fun _ _ _ _ _ h => h)
        (fun _ s h _ => mayEnter_of_idle rfl h) r).conseq (fun s _ h => ⟨h, ?_⟩) fun _ _ _ h => h
      cases r <;> trivial
  | enqueue uid payload staffUid =>
      exact triple_thenPhase (uses_pooledSession (uses_enqueueJob now uid payload staffUid)) rfl
  | done =>
      exact Triple.ret_returns stable_hasClaimed fun s _ h => mayEnter_of_idle rfl h

end Phases

/-! ## Runs -/

section Runs

variable {ι : Type} [DecidableEq ι]

/-- The processes: the phase programs of each, at its own times and with its own fresh uids. -/
def processes (cfg : Settings) (be : Backend) (now : ι → ℕ → Timestamp)
    (newUid : ι → ℕ → ℕ → String) (i : ι) (turn : ℕ) : Phase → App Phase :=
  phaseProgram cfg be (now i turn) (newUid i turn)

/-- Nobody has begun, and every process is about to enter its first phase. -/
structure AtStart (p : Pool ι Phase Exc Command (State ι)) : Prop where
  idle : ∀ i, p.config.state.tx i = {}
  trace : p.config.state.trace = []
  turns : p.turns = []
  entry : ∀ i, ∃ φ, φ.IsEntry ∧ p.config.thread i = .ret φ

/-- What holds of the processes in every state they reach. -/
structure RunsOnce (p : Pool ι Phase Exc Command (State ι)) : Prop where
  handled : (p.turns.filterMap fun turn => turn.2.processed?).Nodup
  worker : ∀ i j uid, (i, .process uid) ∈ p.turns → (j, .process uid) ∈ p.turns → i = j
  claimed : ∀ i uid, (i, .process uid) ∈ p.turns → uid ∈ claimedBy i p.config.state
  claims : ClaimsOnce p.config.state.db p.config.state.commits

theorem processed?_eq_some {φ : Phase} {uid : String} :
    φ.processed? = some uid ↔ φ = .process uid := by
  cases φ <;> simp [Phase.processed?]

/-- When no process runs a handler twice, and no two processes run that of one job, no handler
runs twice. -/
theorem nodup_processed {turns : List (ι × Phase)}
    (hself : ∀ i, (processedIn (ownTurns i turns)).Nodup)
    (hone : ∀ i j uid, (i, Phase.process uid) ∈ turns → (j, Phase.process uid) ∈ turns → i = j) :
    (turns.filterMap fun turn => turn.2.processed?).Nodup := by
  induction turns with
  | nil => exact List.nodup_nil
  | cons turn rest ih =>
      obtain ⟨i, φ⟩ := turn
      have hrest : (rest.filterMap fun turn => turn.2.processed?).Nodup := by
        apply ih
        · intro j
          have hsub : (processedIn (ownTurns j rest)).Sublist
              (processedIn (ownTurns j ((i, φ) :: rest))) :=
            ((List.sublist_cons_self _ _).filterMap _).filterMap _
          exact hsub.nodup (hself j)
        · intro j k uid hj hk
          exact hone j k uid (List.mem_cons_of_mem _ hj) (List.mem_cons_of_mem _ hk)
      cases hφ : φ.processed? with
      | none =>
          simp only [List.filterMap_cons, hφ]
          exact hrest
      | some uid =>
          simp only [List.filterMap_cons, hφ, List.nodup_cons]
          refine ⟨fun hmem => ?_, hrest⟩
          obtain rfl := processed?_eq_some.1 hφ
          obtain ⟨⟨j, ψ⟩, hin, hψ⟩ := List.mem_filterMap.1 hmem
          obtain rfl := processed?_eq_some.1 hψ
          obtain rfl := hone i j uid (List.mem_cons_self ..) (List.mem_cons_of_mem _ hin)
          have hown : processedIn (ownTurns i ((i, .process uid) :: rest)) =
              uid :: processedIn (ownTurns i rest) := by
            simp [ownTurns, processedIn, Phase.processed?]
          have hnodup := hself i
          rw [hown, List.nodup_cons] at hnodup
          apply hnodup.1
          exact List.mem_filterMap.2 ⟨_, mem_ownTurns.2 hin, rfl⟩

section

variable {atStore : Exc → Prop} {p p' : Pool ι Phase Exc Command (State ι)}

/-- Every process has claimed the jobs whose handlers it has run, in the order it ran them. -/
structure PoolInvariant (atStore : Exc → Prop) (p : Pool ι Phase Exc Command (State ι)) :
    Prop where
  phases : PhasesMeet (faultyWorkers ι atStore) (claimTerms ι).contract MayEnter p
  claimed : ∀ i, HasClaimed i (processedIn (ownTurns i p.turns)) p.config.state

theorem PoolInvariant.runsOnce (h : PoolInvariant atStore p) : RunsOnce p := by
  have hclaims : ClaimsOnce p.config.state.db p.config.state.commits := h.phases.inv.2.2
  have hclaimed : ∀ i uid, (i, .process uid) ∈ p.turns → uid ∈ claimedBy i p.config.state := by
    intro i uid hin
    apply (h.claimed i).subset
    exact List.mem_filterMap.2 ⟨_, mem_ownTurns.2 hin, rfl⟩
  have hworker : ∀ i j uid, (i, .process uid) ∈ p.turns → (j, .process uid) ∈ p.turns →
      i = j := by
    intro i j uid hi hj
    by_contra hne
    exact hclaims.disjoint i j hne uid (hclaimed i uid hi) (hclaimed j uid hj)
  refine ⟨?_, hworker, hclaimed, hclaims⟩
  apply nodup_processed _ hworker
  exact fun i => (h.claimed i).nodup (hclaims.nodup i)

/-- What a process has claimed stays claimed, whoever moves. -/
theorem HasClaimed.poolStep {c c' : Config ι Exc Command (State ι) Phase} {i : ι}
    {uids : List String} (h : HasClaimed i uids c.state)
    (hstep : Step (faultyWorkers ι atStore) c c') : HasClaimed i uids c'.state := by
  cases hstep with
  | thread j cmd k r hcall hs =>
      by_cases hij : i = j
      · subst hij
        exact h.step hs
      · unfold HasClaimed claimedBy
        rw [(transacting_workers.others hs hij).commits]
        exact h
  | env henv =>
      unfold HasClaimed claimedBy
      rw [Env.commits_eq henv]
      exact h

/-- One move keeps the invariant, and no started job is pending after it. -/
theorem PoolInvariant.move {cfg : Settings} {be : Backend} {now : ι → ℕ → Timestamp}
    {newUid : ι → ℕ → ℕ → String} (h : PoolInvariant atStore p)
    (hmove : Move (faultyWorkers ι atStore) (processes cfg be now newUid) p p') :
    PoolInvariant atStore p' ∧
      ∀ uid, IsStarted uid p.config.state.db → IsStarted uid p'.config.state.db := by
  have hphases := h.phases.move claimTerms_fits (fun i n before φ =>
    triple_phaseProgram cfg be (now i n) (newUid i n) before φ) hmove
  cases hmove with
  | step hstep =>
      refine ⟨⟨hphases, fun i => (h.claimed i).poolStep hstep⟩, fun uid hstarted => ?_⟩
      rcases h.phases.own transacting_workers.toFramed workTerms_fair hstep with ⟨i, hown⟩ | henv
      · exact hown uid hstarted
      · rw [henv.db_eq]
        exact hstarted
  | turn i φ hφ =>
      refine ⟨⟨hphases, fun j => ?_⟩, fun uid hstarted => hstarted⟩
      by_cases hj : j = i
      · subst hj
        rw [ownTurns_append_self]
        exact h.phases.ready claimTerms_fits hφ
      · rw [ownTurns_append_of_ne hj]
        exact h.claimed j

/-- Every run keeps the invariant. -/
theorem PoolInvariant.moves {cfg : Settings} {be : Backend} {now : ι → ℕ → Timestamp}
    {newUid : ι → ℕ → ℕ → String} (h : PoolInvariant atStore p)
    (hmoves : Moves (faultyWorkers ι atStore) (processes cfg be now newUid) p p') :
    PoolInvariant atStore p' ∧
      ∀ uid, IsStarted uid p.config.state.db → IsStarted uid p'.config.state.db := by
  induction hmoves with
  | refl => exact ⟨h, fun _ hstarted => hstarted⟩
  | tail _ hmove ih =>
      obtain ⟨hinv, hkept⟩ := ih
      obtain ⟨hinv', hstep⟩ := hinv.move hmove
      exact ⟨hinv', fun uid hstarted => hstep uid (hkept uid hstarted)⟩

theorem AtStart.poolInvariant (h : AtStart p) : PoolInvariant atStore p := by
  have hcommits : ∀ i, p.config.state.commits i = [] := by
    intro i
    simp [World.commits, h.trace]
  have hnone : ∀ i, claimsOf (p.config.state.commits i) = [] := by
    intro i
    simp [hcommits i, claimsOf]
  have hclaims : ClaimsOnce p.config.state.db p.config.state.commits := by
    refine ⟨fun i => ?_, fun i j _ uid hu => ?_, fun i uid hu => ?_⟩
    · rw [hnone i]
      exact List.nodup_nil
    · rw [hnone i] at hu
      cases hu
    · rw [hnone i] at hu
      cases hu
  refine ⟨⟨⟨locksHold_of_idle h.idle, WorkLaw.kept_of_idle h.idle, hclaims⟩, fun i => ?_⟩,
    fun i => ?_⟩
  · obtain ⟨φ, hentry, hφ⟩ := h.entry i
    rw [hφ]
    intro s' hi hr
    apply mayEnter_of_idle
    · cases φ <;> trivial
    · simp [HasClaimed, processedIn, h.turns, ownTurns]
  · simp [HasClaimed, processedIn, h.turns, ownTurns]

end

/-- However many instances start, crash, are cancelled and start again, and whatever the order of
their commands and of the requests that enqueue: no handler runs twice, a job has one worker,
no job is claimed twice, and no started job becomes pending again. -/
theorem jobs_run_once (cfg : Settings) (be : Backend) (now : ι → ℕ → Timestamp)
    (newUid : ι → ℕ → ℕ → String) {p₀ p : Pool ι Phase Exc Command (State ι)} (h₀ : AtStart p₀)
    (h : Moves (faultyWorkers ι fun _ => True) (processes cfg be now newUid) p₀ p) :
    RunsOnce p ∧ ∀ p', Moves (faultyWorkers ι fun _ => True) (processes cfg be now newUid) p p' →
      ∀ uid, IsStarted uid p.config.state.db → IsStarted uid p'.config.state.db := by
  have hinv := (h₀.poolInvariant.moves h).1
  exact ⟨hinv.runsOnce, fun p' h' => (hinv.moves h').2⟩

end Runs

namespace Sample

/-- A pending job on tables without spots. -/
def onePending : Db :=
  { Db.empty with jobs := ⟨[{ runningJob with status := .pending }], by decide⟩ }

/-- Two instances, both at their start. -/
def twoInstances (db : Db) : Pool Bool Phase Exc Command (State Bool) :=
  ⟨⟨World.fresh db, fun _ => .ret .boot⟩, []⟩

/-- The programs of the instances. -/
def instances : Bool → ℕ → Phase → App Phase :=
  processes settings backend (fun _ _ => 0) fun _ _ _ => "n"

theorem atStart_twoInstances (db : Db) : AtStart (twoInstances db) :=
  ⟨fun _ => rfl, rfl, rfl, fun _ => ⟨.boot, trivial, rfl⟩⟩

end Sample

/-- Of two instances, one claims the job and goes on to its handler, and the other finds no
job. -/
theorem jobs_run_once_two :
    ∃ p, Moves (faultyWorkers Bool fun _ => True) Sample.instances
        (Sample.twoInstances Sample.onePending) p ∧
      (p.turns.filterMap fun turn => turn.2.processed?) = ["j"] ∧
      RunsOnce p ∧ ∀ p', Moves (faultyWorkers Bool fun _ => True) Sample.instances p p' →
        ∀ uid, IsStarted uid p.config.state.db → IsStarted uid p'.config.state.db := by
  have hrun : (((Sample.twoInstances Sample.onePending).follow (fun i => exec i) Sample.instances
      (List.replicate 5 false ++ List.replicate 14 true ++ List.replicate 4 false)).bind fun p =>
        if (p.turns.filterMap fun turn => turn.2.processed?) = ["j"] then some () else none) =
      some () := by
    decide +kernel
  obtain ⟨p, hfollow, h⟩ := Option.bind_eq_some_iff.1 hrun
  split at h
  · rename_i hone
    have hmoves : Moves (faultyWorkers Bool fun _ => True) Sample.instances
        (Sample.twoInstances Sample.onePending) p := moves_of_schedule hfollow
    exact ⟨p, hmoves, hone, jobs_run_once Sample.settings Sample.backend
      (fun _ _ => 0) (fun _ _ _ => "n") (Sample.atStart_twoInstances _) hmoves⟩
  · cases h

end Vivac
