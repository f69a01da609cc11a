import Vivac.Jobs.JobRows
import Vivac.Lib.Transitions
import Vivac.Pipeline.SpotCalls
import Vivac.Pipeline.SpotRows

/-!
# Who publishes

Any number of calls by callers who are no SUPERUSER, with decay runs and worker cycles, interleaved
statement by statement. Whatever each of them writes, and so whatever is committed, is a
`StaffMove`: the status of a spot stays, or becomes CURATED or REJECTED, and no new spot is
PUBLISHED (`publishing_by_superuser`).

The role check reads the caller's row and the transition check the payload, so that both hold
of what is written later; the worker runs no bulk upsert of spots, since those callers can create
no job of that kind.
-/

set_option autoImplicit false

namespace Vivac

open Lib App

/-! ## Moves -/

/-- The statuses that staff may give. -/
def staffStatus (status : PipelineStatus) : Prop := status = .curated ∨ status = .rejected

/-- What may become of the spot under a uid. -/
def SpotKept : Option Spot → Option Spot → Prop
  | none, none => True
  | none, some s => s.pipelineStatus ≠ .published
  | some s, some s' => s'.pipelineStatus = s.pipelineStatus ∨ staffStatus s'.pipelineStatus
  | some _, none => False

def JobPayload.isSpots : JobPayload → Bool
  | .spots _ => true
  | _ => false

/-- What may become of the job under a uid: its payload stays, it does not become pending again,
and a new job is no bulk upsert of spots. -/
def JobKept : Option Job → Option Job → Prop
  | none, none => True
  | none, some j => j.payload.isSpots = false
  | some j, some j' => j'.payload = j.payload ∧ (j'.status = .pending → j.status = .pending)
  | some _, none => False

/-- What the calls do to the tables. -/
structure StaffMove (d d' : Db) : Prop where
  spots : ∀ uid, SpotKept (d.spots.find? uid) (d'.spots.find? uid)
  jobs : ∀ uid, JobKept (d.jobs.find? uid) (d'.jobs.find? uid)
  users : d'.users = d.users

theorem SpotKept.refl (s : Option Spot) : SpotKept s s := by
  cases s with
  | none => trivial
  | some s => exact .inl rfl

theorem SpotKept.trans {a b c : Option Spot} (hab : SpotKept a b) (hbc : SpotKept b c) :
    SpotKept a c := by
  cases b with
  | none =>
      cases a with
      | none => exact hbc
      | some s => exact hab.elim
  | some t =>
      cases c with
      | none => exact hbc.elim
      | some u =>
          have hnext : u.pipelineStatus = t.pipelineStatus ∨ staffStatus u.pipelineStatus := hbc
          cases a with
          | none =>
              have hfirst : t.pipelineStatus ≠ .published := hab
              show u.pipelineStatus ≠ .published
              rcases hnext with hsame | hstaff
              · rwa [hsame]
              · rcases hstaff with hstaff | hstaff <;> simp [hstaff]
          | some s =>
              have hfirst : t.pipelineStatus = s.pipelineStatus ∨
                  staffStatus t.pipelineStatus := hab
              rcases hnext with hsame | hstaff
              · show u.pipelineStatus = s.pipelineStatus ∨ staffStatus u.pipelineStatus
                rw [hsame]
                exact hfirst
              · exact .inr hstaff

theorem JobKept.refl (j : Option Job) : JobKept j j := by
  cases j with
  | none => trivial
  | some j => exact ⟨rfl, id⟩

theorem JobKept.trans {a b c : Option Job} (hab : JobKept a b) (hbc : JobKept b c) :
    JobKept a c := by
  cases b with
  | none =>
      cases a with
      | none => exact hbc
      | some j => exact hab.elim
  | some k =>
      cases c with
      | none => exact hbc.elim
      | some l =>
          obtain ⟨hpayload, hpending⟩ := hbc
          cases a with
          | none =>
              have hfirst : k.payload.isSpots = false := hab
              show l.payload.isSpots = false
              rwa [hpayload]
          | some j => exact ⟨hpayload.trans hab.1, fun h => hab.2 (hpending h)⟩

theorem StaffMove.refl (d : Db) : StaffMove d d :=
  ⟨fun _ => .refl _, fun _ => .refl _, rfl⟩

theorem StaffMove.trans {a b c : Db} (hab : StaffMove a b) (hbc : StaffMove b c) :
    StaffMove a c :=
  ⟨fun uid => (hab.spots uid).trans (hbc.spots uid), fun uid => (hab.jobs uid).trans (hbc.jobs uid),
    hbc.users.trans hab.users⟩

/-! ## Statements -/

/-- A command whose writes are moves. -/
abbrev Command.Staff {β : Type} (c : Command β) : Prop := Cmd.Moves StaffMove c

theorem admits_staff : AdmitsNested Command.Staff where
  read f := by
    intro locked d eff heff
    cases heff
    exact StaffMove.refl
  commit := trivial
  rollback := trivial
  incr _ := trivial
  savepoint := trivial
  release := trivial
  rollbackTo := trivial

/-- A write elsewhere. -/
theorem StaffMove.of_same {d d' : Db} (hspots : d'.spots = d.spots) (hjobs : d'.jobs = d.jobs)
    (husers : d'.users = d.users) : StaffMove d d' := by
  refine ⟨fun uid => ?_, fun uid => ?_, husers⟩
  · rw [hspots]
    exact .refl _
  · rw [hjobs]
    exact .refl _

/-- New versions of spots under statuses that staff may give. -/
theorem staffMove_rewriteSpots {uids : List String} {f : Rewrite Spot.uid}
    (hf : ∀ s s', f.apply s = some s' →
      s'.pipelineStatus = s.pipelineStatus ∨ staffStatus s'.pipelineStatus) (d : Db) :
    StaffMove d (rewriteSpots uids f d) := by
  refine ⟨fun uid => ?_, fun uid => .refl _, rfl⟩
  rw [find?_rewriteSpots]
  cases hfound : d.spots.find? uid with
  | none => trivial
  | some s =>
      show _ ∨ _
      dsimp only
      split
      · cases hs : f.apply s with
        | none => exact .inl rfl
        | some s' => exact hf s s' hs
      · exact .inl rfl

theorem staff_updateSpots {be : Backend} {p : Spot → Bool} {f : Rewrite Spot.uid}
    {columns : List String} (hf : ∀ s s', f.apply s = some s' →
      s'.pipelineStatus = s.pipelineStatus ∨ staffStatus s'.pipelineStatus) :
    Command.Staff (.sql (updateSpots be p f columns) : Command (List String)) := by
  intro locked d eff heff
  rw [updateSpots_eq_ok heff]
  exact staffMove_rewriteSpots hf

/-- An update of all rows alike that leaves the status alone. -/
theorem staff_updateTotal {be : Backend} {p : Spot → Bool} {g : Spot → Spot}
    {hg : ∀ s, (g s).uid = s.uid} {columns : List String}
    (hstatus : ∀ s, (g s).pipelineStatus = s.pipelineStatus) :
    Command.Staff (.sql (updateSpots be p (.total g hg) columns) : Command (List String)) := by
  apply staff_updateSpots
  intro s s' hs
  cases hs
  exact .inl (hstatus s)

/-- New versions of jobs that keep their payload and are not made pending. -/
theorem staffMove_rewriteJobs {uids : List String} {f : Rewrite Job.uid}
    (hf : ∀ j, ((f.apply j).getD j).payload = j.payload ∧
      (((f.apply j).getD j).status = .pending → j.status = .pending)) (d : Db) :
    StaffMove d (rewriteJobs uids f d) := by
  refine ⟨fun uid => .refl _, fun uid => ?_, rfl⟩
  rw [find?_rewriteJobs]
  cases hfound : d.jobs.find? uid with
  | none => trivial
  | some j =>
      show _ ∧ _
      dsimp only
      split
      · exact hf j
      · exact ⟨rfl, id⟩

theorem staff_insertJob {job : Job} (hjob : job.payload.isSpots = false) :
    Command.Staff (.sql (insertJob job) : Command Unit) := by
  intro locked d eff heff
  obtain ⟨rfl, -⟩ := insertJob_eq_ok heff
  intro d'
  refine ⟨fun uid => .refl _, fun uid => ?_, rfl⟩
  show JobKept (d'.jobs.find? uid) ((d'.jobs.insert job).find? uid)
  by_cases huid : job.uid = uid
  · cases hold : d'.jobs.find? uid with
    | some j =>
        rw [Table.find?_insert_of_some hold]
        exact .refl _
    | none =>
        cases hnew : (d'.jobs.insert job).find? uid with
        | none => trivial
        | some j =>
            obtain ⟨hmem, hkey⟩ := Table.find?_eq_some.1 hnew
            rcases Table.mem_insert hmem with hmem | rfl
            · exact absurd hkey (Table.find?_eq_none.1 hold j hmem)
            · exact hjob
  · rw [Table.find?_insert_of_ne huid]
    exact .refl _

theorem staff_elsewhere {R : Type} {st : Statement R} (h : WritesElsewhere st) :
    Command.Staff (.sql st : Command R) := by
  intro locked d eff heff d'
  obtain ⟨hspots, hjobs, husers⟩ := h locked d eff heff d'
  exact .of_same hspots hjobs husers

/-! ## Programs that move whatever they read -/

section Programs

variable (cfg : Settings) (be : Backend) (now : Timestamp)

theorem staff_setAssigned (uids : List String) (userUid : String) :
    Command.Staff (.sql (setAssigned be now uids userUid) : Command (List String)) :=
  staff_updateTotal fun _ => rfl

theorem staff_lockSpot (p : Spot → Bool) (uid : String) :
    Command.Staff (.sql (lockSpot p uid) : Command Bool) :=
  staff_elsewhere (elsewhere_lockSpot p uid)

theorem staff_insertImageRow (image : SpotImage) :
    Command.Staff (.sql (insertImageRow image) : Command Unit) :=
  staff_elsewhere (elsewhere_insertImageRow image)

theorem staff_updateImageRow (uid : String) (f : Rewrite SpotImage.uid) :
    Command.Staff (.sql (updateImageRow uid f) : Command Bool) :=
  staff_elsewhere (elsewhere_updateImageRow uid f)

theorem staff_insertReviewRow (review : SpotReview) :
    Command.Staff (.sql (insertReviewRow review) : Command Unit) :=
  staff_elsewhere (elsewhere_insertReviewRow review)

theorem staff_updateReviewRow (uid : String) (f : Rewrite SpotReview.uid) :
    Command.Staff (.sql (updateReviewRow uid f) : Command Bool) :=
  staff_elsewhere (elsewhere_updateReviewRow uid f)

theorem staff_deleteFieldOptionRow (field : SpotOptionField) (code : String) :
    Command.Staff (.sql (deleteFieldOptionRow field code) : Command Unit) :=
  staff_elsewhere (elsewhere_deleteFieldOptionRow field code)

theorem staff_updateInfoRow (uid : String) (fields : List InfoAttr) :
    Command.Staff (.sql (updateInfoRow be now uid fields) : Command Bool) :=
  staff_elsewhere (elsewhere_updateInfoRow be now uid fields)

theorem staff_insertInfoRow (info : SpotBusinessInfo) :
    Command.Staff (.sql (insertInfoRow be info) : Command Unit) :=
  staff_elsewhere (elsewhere_insertInfoRow be info)

/-- Pairs that give a spot no status but those staff may give. -/
def StaffData (data : List SpotAttr) : Prop :=
  ∀ a ∈ data, ∀ v, a.pipelineStatus? = some v → ∀ status, v = some status → staffStatus status

theorem status_of_setAll {data : List SpotAttr} (h : StaffData data) {s s' : Spot}
    (hset : SpotAttr.setAll data s = some s') :
    s'.pipelineStatus = s.pipelineStatus ∨ staffStatus s'.pipelineStatus := by
  induction data generalizing s with
  | nil =>
      cases hset
      exact .inl rfl
  | cons a as ih =>
      obtain ⟨t, ht, hrest⟩ := Option.bind_eq_some_iff.1 hset
      have hfirst : t.pipelineStatus = s.pipelineStatus ∨ staffStatus t.pipelineStatus := by
        cases a with
        | pipelineStatus v =>
            obtain ⟨status, rfl, rfl⟩ := Option.map_eq_some_iff.1 ht
            exact .inr (h _ (List.mem_cons_self ..) _ rfl status rfl)
        | title v =>
            obtain ⟨w, -, rfl⟩ := Option.map_eq_some_iff.1 ht
            exact .inl rfl
        | _ =>
            cases ht
            exact .inl rfl
      rcases ih (fun b hb => h b (List.mem_cons_of_mem _ hb)) hrest with hsame | hstaff
      · rw [hsame]
        exact hfirst
      · exact .inr hstaff

theorem staff_flushSpot {data : List SpotAttr} (h : StaffData data) (loaded : Spot) :
    (flushSpot be now loaded data).Uses Command.Staff := by
  unfold flushSpot
  dsimp only
  split
  · trivial
  · apply Prog.Uses.bind (Prog.uses_perform _)
    · intro uids
      split <;> trivial
    · apply staff_updateSpots
      intro s s' hs
      obtain ⟨t, ht, rfl⟩ := Option.map_eq_some_iff.1 hs
      have hchanged : StaffData (data.filter fun a => !a.unchanged loaded) :=
        fun a ha => h a (List.mem_filter.1 ha).1
      have hstatus := status_of_setAll hchanged ht
      exact hstatus

theorem staff_deletedAt (uid : String) (deletedAt : Option Timestamp) :
    Command.Staff (.sql (setDeletedAt be now uid deletedAt) : Command (List String)) :=
  staff_updateTotal fun _ => rfl

end Programs

/-! ## Programs that rely on what they read -/

section Relying

variable {start : Db} (cfg : Settings) (be : Backend) (now : Timestamp)

/-- A program from `start` on, whose writes are moves. -/
abbrev StaffTransits (start : Db) {α : Type} (Q : α → Prop) (p : App α) : Prop :=
  Transits (StaffMove start) StaffMove Q p

/-- Nobody who holds these credentials is a SUPERUSER staff user. -/
def NotSuperuser (credentials : Credentials) (d : Db) : Prop :=
  ∀ sub user, credentials = .access sub → d.users.find? sub = some user →
    ¬(user.isStaff = true ∧ user.staffRole = .superuser)

theorem transits_uses {α : Type} {p : App α} (h : p.Uses Command.Staff) :
    StaffTransits start (fun _ => True) p := Transits.of_uses h

theorem transits_withSession {α : Type} {Q : α → Prop} {p : App α} (h : StaffTransits start Q p) :
    StaffTransits start Q (withSession p) := by
  apply h.attempt.bind
  intro r hr
  have hroll : StaffTransits start (fun _ => True) (Prog.perform .rollback : App Unit) :=
    fun _ => Transits.ofExcept fun _ _ => trivial
  apply hroll.bind
  intro _ _
  apply Transits.ofExcept
  rintro a rfl
  exact hr

/-- The staff user of a call is the one the start has under its credentials. -/
theorem transits_requireStaff {credentials : Credentials} (h : NotSuperuser credentials start) :
    StaffTransits start (fun staff => staff.staffRole ≠ .superuser) (requireStaff credentials) := by
  have huser :
      StaffTransits start (fun user => ¬(user.isStaff = true ∧ user.staffRole = .superuser))
      (getCurrentUser credentials) := by
    cases credentials with
    | access sub =>
        have hread : StaffTransits start (fun found => found = start.users.find? sub)
            (getUserById sub) := by
          apply Transits.read StaffMove.refl
          intro d hd
          rw [hd.users]
        apply hread.bind
        rintro found rfl
        cases hfound : start.users.find? sub with
        | none => trivial
        | some user =>
            dsimp only
            split
            · exact h sub user rfl hfound
            · trivial
    | missing => trivial
    | invalid => trivial
    | otherType => trivial
  apply huser.bind
  intro user hrole
  split
  · rename_i hstaff
    exact fun hsuper => hrole ⟨hstaff, hsuper⟩
  · trivial

/-- What asks for a SUPERUSER goes no further. -/
theorem transits_requireSuperuser {credentials : Credentials} (h : NotSuperuser credentials start) :
    StaffTransits start (fun _ => False)
      (InternalSpots.requireStaffRole .superuser credentials) := by
  apply (transits_requireStaff h).bind
  intro staff hstaff
  have hraise : ∃ e, requireRole .superuser staff = .raise e := by
    unfold requireRole whenever
    cases hrole : staff.staffRole with
    | staff => exact ⟨_, rfl⟩
    | manager => exact ⟨_, rfl⟩
    | superuser => exact absurd hrole hstaff
  obtain ⟨e, he⟩ := hraise
  rw [he]
  trivial

/-- The key is in the payload once, so that a pair is the one the check looks at. -/
theorem pipelineStatus?_of_mem (payload : SpotUpdate) {a : SpotAttr}
    {v : Option PipelineStatus} (ha : a ∈ payload.data) (hv : a.pipelineStatus? = some v) :
    payload.pipelineStatus? = some v := by
  have hcolumn : ∀ {b : SpotAttr} {w : Option PipelineStatus}, b.pipelineStatus? = some w →
      b.column = "pipeline_status" := by
    intro b w hb
    cases b <;> cases hb
    rfl
  cases hfound : payload.pipelineStatus? with
  | none =>
      have hnone := List.findSome?_eq_none_iff.1 hfound a ha
      rw [hv] at hnone
      cases hnone
  | some w =>
      obtain ⟨b, hb, hw⟩ := List.exists_of_findSome?_eq_some hfound
      have hsame : a = b :=
        List.inj_on_of_nodup_map payload.nodup ha hb ((hcolumn hv).trans (hcolumn hw).symm)
      rw [← hw, ← hsame, hv]

/-- A payload that passes the check of a staff user gives a status of the whitelist. -/
theorem staffData_of_allowed {staff : User} (hstaff : staff.staffRole ≠ .superuser)
    {current : Spot} {payload : SpotUpdate}
    (h : InternalSpots.refusesUpdate staff current payload = none) : StaffData payload.data := by
  rintro a ha v hv status rfl
  have hpayload := pipelineStatus?_of_mem payload ha hv
  have hrole : (staff.staffRole == .superuser) = false := by simpa using hstaff
  simp only [InternalSpots.refusesUpdate, hrole, hpayload, Bool.not_false, Bool.true_and] at h
  split at h
  · cases h
  · split at h
    · cases h
    · rename_i hallowed
      simp only [Bool.not_eq_true, Bool.not_eq_false', List.any_eq_true] at hallowed
      obtain ⟨t, ht, hmatch⟩ := hallowed
      simp only [Bool.and_eq_true, beq_iff_eq, Option.some.injEq] at hmatch
      obtain ⟨-, rfl⟩ := hmatch
      simp only [allowedPipelineTransitions, List.mem_cons, List.not_mem_nil, or_false] at ht
      rcases ht with rfl | rfl
      · exact .inl rfl
      · exact .inr rfl

theorem transits_updateSpot {credentials : Credentials} (h : NotSuperuser credentials start)
    (uid : String) (payload : SpotUpdate) :
    StaffTransits start (fun _ => True)
      (InternalSpots.updateSpot cfg be now credentials uid payload) := by
  apply (transits_requireStaff h).bind
  intro staff hstaff
  apply (transits_uses (admits_staff.findSpot cfg uid)).bind
  intro current _
  split
  · trivial
  · rename_i hallowed
    apply transits_uses
    exact admits_staff.updateLoaded (staff_flushSpot be now (staffData_of_allowed hstaff hallowed))

/-! ## The worker -/

/-- No bulk upsert of spots waits to be claimed. -/
def NoSpotsPending (d : Db) : Prop :=
  ∀ job ∈ d.jobs.rows, job.payload.isSpots = true → job.status ≠ .pending

/-- The job of this uid, if the start has it, is no bulk upsert of spots. -/
def OtherJob (start : Db) (uid : String) : Prop :=
  ∀ job, start.jobs.find? uid = some job → job.payload.isSpots = false

/-- A job that can be claimed is no bulk upsert of spots. -/
theorem otherJob_of_pending (hjobs : NoSpotsPending start) {d : Db} (hd : StaffMove start d)
    {uid : String} {job : Job} (hfound : d.jobs.find? uid = some job)
    (hpending : job.status = .pending) : OtherJob start uid := by
  intro first hfirst
  have hkept := hd.jobs uid
  rw [hfirst, hfound] at hkept
  cases hspots : first.payload.isSpots with
  | false => rfl
  | true =>
      have hmem := (Table.find?_eq_some.1 hfirst).1
      exact absurd (hkept.2 hpending) (hjobs first hmem hspots)

/-- The payload of such a job, at any later time. -/
theorem isSpots_of_otherJob {d : Db} (hd : StaffMove start d) {uid : String}
    (h : OtherJob start uid) {job : Job} (hfound : d.jobs.find? uid = some job) :
    job.payload.isSpots = false := by
  have hkept := hd.jobs uid
  rw [hfound] at hkept
  cases hfirst : start.jobs.find? uid with
  | none =>
      rw [hfirst] at hkept
      exact hkept
  | some first =>
      rw [hfirst] at hkept
      rw [hkept.1]
      exact h first hfirst

theorem transits_lockPendingJob (hjobs : NoSpotsPending start) :
    StaffTransits start (fun job => ∀ j, job = some j → OtherJob start j.uid)
      lockPendingJob := by
  have hread : StaffTransits start (fun _ => True)
      (select fun d => ((d.jobs.select fun j => j.status == .pending).insertionSort
        fun a b => a.createdAt ≤ b.createdAt).map Job.uid) :=
    Transits.read StaffMove.refl fun _ _ => trivial
  apply hread.bind
  intro uids _
  induction uids with
  | nil =>
      intro j hj
      cases hj
  | cons uid uids ih =>
      have hlock : StaffTransits start (fun job => ∀ j, job = some j → OtherJob start j.uid)
          (execute (lockPending uid)) := by
        apply Transits.sql
        intro locked d hd eff heff
        cases heff
        refine ⟨StaffMove.refl, fun j hj => ?_⟩
        obtain ⟨hfound, hcond⟩ := Option.filter_eq_some_iff.1 hj
        simp only [Bool.and_eq_true, beq_iff_eq] at hcond
        rw [(Table.find?_eq_some.1 hfound).2]
        exact otherJob_of_pending hjobs hd hfound hcond.1
      apply hlock.bind
      intro job hjob
      cases job with
      | some job => exact hjob
      | none => exact ih

/-- The claimed job is no bulk upsert of spots. -/
theorem transits_claimNextJob (hjobs : NoSpotsPending start) :
    StaffTransits start (fun job => ∀ j, job = some j → OtherJob start j.uid)
      (claimNextJob now) := by
  apply (transits_lockPendingJob hjobs).bind
  intro job hjob
  cases job with
  | none =>
      intro j hj
      cases hj
  | some job =>
      have hstart : StaffTransits start (fun _ => True) (execute (startJob now job.uid)) := by
        apply Transits.sql
        intro locked d _ eff heff
        cases heff
        refine ⟨staffMove_rewriteJobs fun j => ⟨rfl, fun hpending => ?_⟩, trivial⟩
        cases hpending
      apply hstart.bind
      intro uids _
      split
      · trivial
      · have hcommit : StaffTransits start (fun _ => True) (commit : App Unit) :=
          transits_uses (Prog.uses_perform admits_staff.commit)
        apply hcommit.bind
        intro _ _
        have hfresh : StaffTransits start (fun fresh => fresh.uid = job.uid)
            (refreshJob job.uid) := by
          have hread : StaffTransits start (fun found => ∀ j, found = some j → j.uid = job.uid)
              (select fun d => d.jobs.find? job.uid) :=
            Transits.read StaffMove.refl fun d _ j hj => (Table.find?_eq_some.1 hj).2
          apply hread.bind
          intro found hfound
          cases found with
          | none => trivial
          | some j => exact hfound j rfl
        apply hfresh.bind
        intro fresh huid j hj
        cases hj
        rw [huid]
        exact hjob job rfl

theorem staff_recordOutcome (uid : String) (outcome : Except Exc JobResult) :
    (flushJob uid (recordOutcome now outcome)).Uses Command.Staff := by
  apply Prog.Uses.bind (Prog.uses_perform _)
  · intro uids
    split <;> trivial
  · intro locked d eff heff
    cases heff
    apply staffMove_rewriteJobs
    intro j
    cases outcome with
    | ok result =>
        refine ⟨rfl, fun hpending => ?_⟩
        cases hpending
    | error e =>
        by_cases hexc : e.isException = true
        · simp [recordOutcome, Rewrite.total, hexc]
        · simp [recordOutcome, Rewrite.total, hexc]

/-- Processing a job that is no bulk upsert of spots. -/
theorem transits_processClaimed {newUid : ℕ → String} {uid : String} (h : OtherJob start uid) :
    StaffTransits start (fun _ => True) (processClaimed cfg be now newUid uid) := by
  have hreload : StaffTransits start (fun job => job.payload.isSpots = false)
      (reloadJob uid) := by
    have hread : StaffTransits start
        (fun found => ∀ j : Job, found = some j → j.payload.isSpots = false)
        (select fun d => d.jobs.find? uid) :=
      Transits.read StaffMove.refl fun d hd j hj => isSpots_of_otherJob hd h hj
    apply hread.bind
    intro found hfound
    cases found with
    | none => trivial
    | some j => exact hfound j rfl
  apply hreload.bind
  intro job hpayload
  have hhandler : (runHandler cfg be now newUid job.payload).Uses Command.Staff := by
    cases hcase : job.payload with
    | spots request =>
        rw [hcase] at hpayload
        cases hpayload
    | businessInfo request =>
        apply Prog.Uses.bind _ fun _ => by trivial
        exact admits_staff.businessInfoHandler be now newUid (staff_updateInfoRow be now)
          (staff_insertInfoRow be) request
    | dbDump =>
        apply (Prog.uses_ofExcept _).bind
        exact fun _ => by trivial
  apply transits_uses
  apply admits_staff.read_bind
  intro _
  apply hhandler.attempt.bind
  intro outcome
  apply (staff_recordOutcome now job.uid outcome).bind
  intro _
  apply admits_staff.commit_bind
  cases outcome with
  | ok result => trivial
  | error e =>
      dsimp only
      split <;> trivial

theorem transits_runWorkerCycle (hjobs : NoSpotsPending start) (newUid : ℕ → String) :
    StaffTransits start (fun _ => True) (runWorkerCycle cfg be now newUid) := by
  apply (transits_withSession (transits_claimNextJob now hjobs)).bind
  intro job hjob
  cases job with
  | none => trivial
  | some job =>
      apply (transits_withSession (transits_processClaimed cfg be now (hjob job rfl))).bind
      intro _ _
      trivial

/-! ## Every call -/

/-- The calls whose writes depend on who calls, or on the job that waits. -/
def Guarded : SpotCall → Prop
  | .update _ _ _ => True
  | .bulkStatus _ _ _ => True
  | .enqueueSpots _ _ _ => True
  | .workerCycle _ => True
  | _ => False

theorem staff_pickWrites : SpotCall.PickWrites Command.Staff be now :=
  ⟨staff_lockSpot, staff_setAssigned be now⟩

theorem staff_ratingWrites : SpotCall.RatingWrites Command.Staff be now :=
  fun _ _ _ => staff_updateTotal fun _ => rfl

/-- The others write moves whoever calls. -/
theorem staff_writes (call : SpotCall) (h : ¬Guarded call) : call.Writes Command.Staff be now := by
  cases call with
  | update credentials uid payload => exact absurd trivial h
  | delete credentials uid => exact fun uid => staff_deletedAt be now uid _
  | restore credentials uid => exact fun uid => staff_deletedAt be now uid _
  | assign credentials userUid count => exact staff_pickWrites be now
  | bulkAssign credentials spotUids userUid => exact staff_setAssigned be now
  | transfer credentials fromUserUid toUserUid count => exact staff_pickWrites be now
  | reassign credentials uid userUid =>
      apply staff_flushSpot be now
      intro a ha v hv
      rw [List.mem_singleton.1 ha] at hv
      cases hv
  | bulkStatus credentials uids status => exact absurd trivial h
  | enqueueSpots credentials jobUid request => exact absurd trivial h
  | enqueueInfo credentials jobUid request =>
      intro job hjob
      apply staff_insertJob
      rw [hjob]
      rfl
  | registerImage limits storage peer credentials uid imageUid payload => exact staff_insertImageRow
  | updateImage credentials uid imageUid data => exact staff_updateImageRow
  | deleteImage credentials uid imageUid => exact staff_updateImageRow
  | createReview peer credentials reviewUid spotUid rating content =>
      exact ⟨staff_insertReviewRow, staff_ratingWrites be now⟩
  | updateReview credentials spotUid reviewUid data =>
      exact ⟨staff_updateReviewRow, staff_ratingWrites be now⟩
  | deleteReview credentials spotUid reviewUid =>
      exact ⟨staff_updateReviewRow, staff_ratingWrites be now⟩
  | deleteOption credentials field code =>
      refine ⟨staff_updateTotal fun s => ?_, staff_deleteFieldOptionRow field code⟩
      cases field <;> rfl
  | decay thresholdDays =>
      exact ⟨staff_updateTotal fun _ => rfl, staff_updateTotal fun _ => rfl⟩
  | workerCycle newUid => exact absurd trivial h

/-- Whatever a call writes is a move, when its caller is no SUPERUSER. -/
theorem transits_body (hjobs : NoSpotsPending start) (call : SpotCall)
    (hrole : ∀ credentials, call.credentials? = some credentials →
      NotSuperuser credentials start) :
    StaffTransits start (fun _ => True) (call.body cfg be now) := by
  by_cases hguarded : Guarded call
  · cases call with
    | update credentials uid payload =>
        apply (transits_updateSpot cfg be now (hrole credentials rfl) uid payload).bind
        intro _ _
        trivial
    | bulkStatus credentials uids status =>
        have hrefused := transits_requireSuperuser (hrole credentials rfl)
        exact (hrefused.bind fun _ => False.elim).bind (M := fun _ => True) fun _ _ => trivial
    | enqueueSpots credentials jobUid request =>
        have hrefused := transits_requireSuperuser (hrole credentials rfl)
        exact (hrefused.bind fun _ => False.elim).bind (M := fun _ => True) fun _ _ => trivial
    | workerCycle newUid =>
        apply (transits_runWorkerCycle cfg be now hjobs newUid).bind
        intro _ _
        trivial
    | _ => exact hguarded.elim
  · apply transits_uses
    exact SpotCall.uses_body admits_staff cfg call (staff_writes be now call hguarded)

theorem transits_call (hjobs : NoSpotsPending start) (call : SpotCall)
    (hrole : ∀ credentials, call.credentials? = some credentials →
      NotSuperuser credentials start) :
    StaffTransits start (fun _ => True) (call.program cfg be now) := by
  have hbody := transits_body cfg be now hjobs call hrole
  cases call with
  | workerCycle newUid => exact hbody
  | _ => exact transits_withSession hbody

end Relying

/-- In every run of calls by callers who are no SUPERUSER, each step leaves the status of a spot
as it is, or makes it CURATED or REJECTED, and a spot that is PUBLISHED was so at the start. -/
theorem publishing_by_superuser {ι : Type} [DecidableEq ι] (cfg : Settings) (be : Backend)
    (now : ι → Timestamp) (calls : ι → SpotCall) {c c' : Config ι Exc Command (State ι) Unit}
    (hidle : Idle c.state) (hcalls : ∀ i, c.thread i = (calls i).program cfg be (now i))
    (hrole : ∀ i credentials, (calls i).credentials? = some credentials →
      NotSuperuser credentials c.state.db)
    (hjobs : NoSpotsPending c.state.db) (hrun : Run platform c c') :
    (∀ s' ∈ c'.state.db.spots.rows, s'.pipelineStatus = .published →
      ∃ s, c.state.db.spots.find? s'.uid = some s ∧ s.pipelineStatus = .published) ∧
    ∀ c'', Step platform c' c'' → ∀ uid,
      SpotKept (c'.state.db.spots.find? uid) (c''.state.db.spots.find? uid) := by
  have hstart : AllTransit StaffMove c.state.db c := by
    refine ⟨onCourse_of_idle StaffMove.refl hidle.tx, fun i => ?_⟩
    rw [hcalls i]
    exact transits_call cfg be (now i) hjobs (calls i) (hrole i)
  have hreached := hstart.run StaffMove.refl StaffMove.trans hrun
  refine ⟨fun s' hs' hpublished => ?_, fun c'' hstep uid => ?_⟩
  · have hkept := hreached.course.db.spots s'.uid
    rw [Table.find?_eq_some.2 ⟨hs', rfl⟩] at hkept
    cases hfirst : c.state.db.spots.find? s'.uid with
    | none =>
        rw [hfirst] at hkept
        exact absurd hpublished hkept
    | some s =>
        rw [hfirst] at hkept
        rcases hkept with hsame | hstaff
        · exact ⟨s, rfl, hsame.symm.trans hpublished⟩
        · rw [hpublished] at hstaff
          rcases hstaff with hstaff | hstaff <;> cases hstaff
  · exact (hreached.step StaffMove.refl StaffMove.trans hstep).2.spots uid

namespace Sample

/-- A manager of the staff. -/
def manager (uid : String) : User :=
  { user uid with
    isStaff := true
    staffRole := .manager }

/-- A spot to be verified, assigned to a manager. -/
def assignedSpot : Spot :=
  { uid := "s", title := "Camp", pipelineStatus := .enriched, assignedToUid := some "m" }

def verification : Db :=
  { Db.empty with
    spots := ⟨[assignedSpot], by decide⟩
    users := ⟨[manager "m"], by decide⟩ }

/-- The manager submits the spot, and deletes it. -/
def submission : Bool → SpotCall
  | false => .update (.access "m") "s"
      ⟨[.pipelineStatus (some .curated)], by decide, by decide⟩
  | true => .delete (.access "m") "s"

/-- A pool at its start. -/
def submitting : Config Bool Exc Command (State Bool) Unit :=
  ⟨World.fresh verification, fun b => (submission b).program settings backend 0⟩

theorem notSuperuser_manager : NotSuperuser (.access "m") verification := by
  intro sub found hsub hfound
  cases hsub
  have hmanager : verification.users.find? "m" = some (manager "m") := by rfl
  rw [hmanager] at hfound
  cases hfound
  rintro ⟨-, hrole⟩
  cases hrole

end Sample

/-- The manager's calls make the spot CURATED and publish nothing. -/
theorem publishing_by_manager :
    ∃ c', Run platform Sample.submitting c' ∧
      (c'.state.db.spots.find? "s").map Spot.pipelineStatus = some .curated ∧
      ∀ s ∈ c'.state.db.spots.rows, s.pipelineStatus ≠ .published := by
  have hrun : (follow (fun i => exec i) (List.replicate 7 false) Sample.submitting).any
      (fun c => (c.state.db.spots.find? "s").map Spot.pipelineStatus = some .curated) = true := by
    decide +kernel
  obtain ⟨c', hrun', hcurated⟩ := exists_run_of_schedule _ hrun
  obtain ⟨hpublished, -⟩ := publishing_by_superuser Sample.settings Sample.backend (fun _ => 0)
    Sample.submission (idle_fresh _) (fun _ => rfl)
    (fun b credentials hcredentials => by
      cases b <;> cases hcredentials <;> exact Sample.notSuperuser_manager)
    (fun job hjob => by cases hjob) hrun'
  refine ⟨c', hrun', by simpa using hcurated, fun s hs hstatus => ?_⟩
  obtain ⟨first, hfirst, hfirstStatus⟩ := hpublished s hs hstatus
  obtain ⟨hmem, -⟩ := Table.find?_eq_some.1 hfirst
  have hrows : first ∈ [Sample.assignedSpot] := hmem
  rw [List.mem_singleton.1 hrows] at hfirstStatus
  cases hfirstStatus

end Vivac
