import Vivac.Freshness.BulkJob
import Vivac.Freshness.PublicCache

/-!
# Freshness after a bulk job

`process_job` commits after its handler has raised the versions, so a reader between the
two stores what it saw before the commit under a version that stays current. Where no
reader stores such a body (`StoresInTime`), a read that starts after the job has returned
is answered from queries that ran after the commit (`bulk_job_fresh`).
-/

set_option autoImplicit false

namespace Vivac

open Lib App

section Condition

variable {ι : Type}

/-- The versions a job owes for the spots it upserts. -/
def upsertedKeys (uids : List String) : List String :=
  Cache.spotsVersionKey :: uids.map Cache.spotDetailVersionKey

/-- A body of queries at `times` may lie under version `n` of `vk`: its queries ran after
the commit at `tc`, or `vk` is among `keys` and every raise so far is beyond `n`. -/
def InTime (tc : ℕ) (keys : List String) (vk : String) (n : ℕ) (times : List ℕ) (s : State ι) :
    Prop :=
  (∀ t ∈ times, tc < t) ∨ vk ∈ keys ∧ ∀ m t, RaisedAt vk m t s → n < m

/-- The body that session `j` stores may lie where it stores it. -/
def StoresInTime (tc : ℕ) (keys : List String) (j : ι) (s s' : State ι) : Prop :=
  ∀ key vk n, s'.trace = s.trace ++ [⟨j, .set key⟩] → Cache.BodyUnder vk n key →
    InTime tc keys vk n (s.prov j) s

/-- Every body may lie where it lies. -/
def BodiesInTime (tc : ℕ) (keys : List String) (s : State ι) : Prop :=
  ∀ vk n key v p, Cache.BodyUnder vk n key → s.redis key = some (.body v p) →
    InTime tc keys vk n p s

variable {tc : ℕ} {keys : List String} {vk : String} {n : ℕ} {times : List ℕ} {s s' : State ι}

/-- A later raise is beyond every version there is. -/
theorem InTime.step (hvk : Cache.IsVersionKey vk) (hT : VersionStep s s') (hn : n ≤ s.counter vk)
    (h : InTime tc keys vk n times s) : InTime tc keys vk n times s' := by
  rcases h with hyoung | ⟨hkey, hraises⟩
  · exact .inl hyoung
  · refine .inr ⟨hkey, fun m t hraised => ?_⟩
    rcases hT.raised vk m t hvk hraised with hold | hnew
    · exact hraises m t hold
    · exact lt_of_le_of_lt hn hnew

variable [DecidableEq ι]

/-- A store that may be made, and every other command, leaves the bodies in time. -/
theorem BodiesInTime.exec {i : ι} {β : Type} {c : Command β} {r : Except Exc β}
    (hi : CacheInvariant s) (h : BodiesInTime tc keys s) (hexec : exec i c s = some (r, s'))
    (hok : StoresInTime tc keys i s s') (hT : VersionStep s s') :
    BodiesInTime tc keys s' := by
  intro vk n key v p hkey hbody
  have hvk := hkey.isVersionKey
  rcases body_of_exec hexec hbody with hold | ⟨rfl, htrace, -⟩
  · exact (h vk n key v p hkey hold).step hvk hT (hi.bodies vk n key v p hkey hold).1
  · -- the store itself raises nothing, so the versions are as the session left them
    have hraised : ∀ m t, RaisedAt vk m t s' → RaisedAt vk m t s := by
      rintro m t ⟨j, hat⟩
      have hsame : (s.log i (.set key)).At t ⟨j, .incr vk m⟩ := by
        show (s.trace ++ [⟨i, .set key⟩])[t]? = _
        rw [← htrace]
        exact hat
      exact (raisedAt_log (by simp) vk m t).1 ⟨j, hsame⟩
    rcases hok key vk n htrace hkey with hyoung | ⟨hmem, hraises⟩
    · exact .inl hyoung
    · exact .inr ⟨hmem, fun m t hat => hraises m t (hraised m t hat)⟩

theorem BodiesInTime.env (hi : CacheInvariant s) (h : BodiesInTime tc keys s) (henv : Env s s') :
    BodiesInTime tc keys s' := by
  obtain ⟨-, hT⟩ := sharedStep_cacheInvariant.env henv hi
  have hold : ∀ key v p, s'.redis key = some (.body v p) → s.redis key = some (.body v p) := by
    intro key v p hbody
    cases henv with
    | lose i => exact hbody
    | expire key' hkey' =>
      by_cases heq : key = key'
      · subst heq
        exact absurd hbody (by simp)
      · simpa [Function.update_of_ne heq] using hbody
  intro vk n key v p hkey hbody
  have hbody' := hold key v p hbody
  exact (h vk n key v p hkey hbody').step hkey.isVersionKey hT
    (hi.bodies vk n key v p hkey hbody').1

theorem kept_bodiesInTime :
    Kept (StoresInTime (ι := ι) tc keys) (BodiesInTime tc keys) where
  command _ _ _ _ _ _ hi h hexec hok _ hT := h.exec hi hexec hok hT
  env _ _ hi h henv := h.env hi henv

/-- From the commit on: the bodies are in time, and a version that is owed was raised. -/
structure AfterCommit (tc : ℕ) (keys : List String) (vk : String) (k tb : ℕ) (s : State ι) :
    Prop where
  bodies : BodiesInTime tc keys s
  committed : ∃ e, s.At tc e
  raised : vk ∈ keys → RaisedAt vk k tb s

variable {k tb : ℕ}

theorem kept_afterCommit :
    Kept (StoresInTime (ι := ι) tc keys) (AfterCommit tc keys vk k tb) where
  command _ _ _ _ _ _ hi h hexec hok hi' hT := by
    refine ⟨h.bodies.exec hi hexec hok hT, ?_, fun hvk => hT.kept vk k tb (h.raised hvk)⟩
    obtain ⟨e, hat⟩ := h.committed
    exact ⟨e, at_of_exec hexec hat⟩
  env s s' hi h henv := by
    obtain ⟨-, hT⟩ := sharedStep_cacheInvariant.env henv hi
    refine ⟨h.bodies.env hi henv, ?_, fun hvk => hT.kept vk k tb (h.raised hvk)⟩
    obtain ⟨e, hat⟩ := h.committed
    cases henv with
    | lose i => exact ⟨e, hat⟩
    | expire key hkey => exact ⟨e, hat⟩

omit [DecidableEq ι] in
theorem vetted_afterCommit :
    Vetted (AfterCommit (ι := ι) tc keys vk k tb) vk k fun t => tc < t where
  young := by
    intro s h t ht
    obtain ⟨e, hat⟩ := h.committed
    exact (World.lt_clock_of_at hat).trans_le ht
  bodies s _ h n key v p hkey hbody hk := by
    rcases h.bodies vk n key v p hkey hbody with hyoung | ⟨hmem, hraises⟩
    · exact hyoung
    · exact absurd (hraises k tb (h.raised hmem)) (Nat.not_lt.2 hk)

end Condition

/-! ## The job among readers -/

section Job

variable {κ : Type} [DecidableEq κ]

/-- One job and any number of readers, each in a session of its own. -/
def jobAndReaders (cfg : Settings) (be : Backend) (now : Timestamp) (newUid : ℕ → String)
    (job : Job) (readers : κ → Reader) : Option κ → App (Option Reply)
  | none => withSession ((processJob cfg be now newUid job).bind fun _ => .ret none)
  | some j => withSession ((readers j).program cfg be)

/-- What the job leaves when it returns. -/
def JobLeaves : Option κ → Except Exc (Option Reply) → State (Option κ) → Prop
  | none => Returns fun _ => Announced none
  | some _ => fun _ _ => True

/-- The last rollback changes nothing of this. -/
theorem Announced.rollback {ι : Type} [DecidableEq ι] {i : ι} {s : State ι} (h : Announced i s) :
    Announced i (endTx i (s.log i .rollback)) := by
  intro t chs hat uid columns hch vk hvk
  obtain ⟨m, tr, hraised⟩ := h t chs (commit_of_log (by simp) hat) uid columns hch vk hvk
  exact ⟨m, tr, World.at_log.2 (.inl hraised)⟩

theorem triple_job {ok : Option κ → State (Option κ) → State (Option κ) → Prop} {cfg : Settings}
    (hcfg : cfg.redisUrl = true) (be : Backend) (now : Timestamp) (newUid : ℕ → String)
    {job : Job} {request : SpotBulkRequest} (hjob : job.payload = .spots request) :
    Triple (sessions ok) (sessionContract CacheInvariant VersionStep) (none : Option κ)
      (Upserting [] [] none)
      (withSession ((processJob cfg be now newUid job).bind fun _ => .ret (none : Option Reply)))
      (Returns fun _ => Announced none) := by
  refine triple_withSession sharedStep_cacheInvariant (fun _ => stable_announced) ?_
    fun s hi _ => ?_
  · refine Triple.bind_returns cacheFits _ (triple_processJob_announced be now newUid hcfg hjob)
      fun _ => ?_
    exact Triple.ret_returns stable_announced fun _ _ h => h
  · obtain ⟨hinv, hT⟩ := keeps_cacheInvariant hi (c := .rollback) (i := none) trivial rfl
    exact ⟨hinv, hT, fun _ h => h.rollback⟩

/-- A rollback is no store. -/
theorem storesInTime_rollback {ι : Type} [DecidableEq ι] {tc : ℕ} {keys : List String} (j : ι)
    (s : State ι) : StoresInTime tc keys j s (endTx j (s.log j .rollback)) := by
  intro key vk n htrace
  have hlast := List.append_cancel_left
    (show s.trace ++ [⟨j, .rollback⟩] = s.trace ++ [⟨j, .set key⟩] from htrace)
  cases hlast

/-- Every session meets its contract from a cold start. -/
theorem ColdStart.allMeet_job {cfg : Settings} (hcfg : cfg.redisUrl = true) (be : Backend)
    (now : Timestamp) (newUid : ℕ → String) {job : Job} {request : SpotBulkRequest}
    (hjob : job.payload = .spots request) (readers : κ → Reader) {s : State (Option κ)}
    (h : ColdStart s) (tc : ℕ) (keys : List String) :
    AllMeet (sessions (StoresInTime tc keys)) (cacheContract (BodiesInTime tc keys)) JobLeaves
      ⟨s, jobAndReaders cfg be now newUid job readers⟩ := by
  have hbodies : BodiesInTime tc keys s := fun _ _ key v p _ hbody =>
    absurd hbody (h.no_body key v p)
  refine ⟨⟨h.cacheInvariant, hbodies⟩, fun i => ?_⟩
  cases i with
  | none =>
    refine kept_bodiesInTime.meets (fun _ h => h.1) (fun _ h => h) ?_
    refine triple_job hcfg be now newUid hjob s h.cacheInvariant ⟨fun t chs => h.not_at, ?_, ?_⟩
    · rw [(h.idle none).1]
      exact spotsWithin_nil
    · rw [(h.idle none).1]
      exact .inr .nil
  | some j =>
    have hvet : Vetted (BodiesInTime (ι := Option κ) tc keys) (readers j).versionKey 0
        fun _ => True := ⟨fun _ _ _ _ => trivial, fun _ _ _ _ _ _ _ _ _ _ _ _ => trivial⟩
    exact ((readers j).triple_request be kept_bodiesInTime hcfg hvet s ⟨h.cacheInvariant, hbodies⟩
      ⟨(h.idle (some j)).2, Nat.zero_le _⟩).mono fun _ _ _ _ => trivial

end Job

/-- When no reader stores, under a version the job has raised already or never raises, what it
saw before the job's commit, a read that starts after the job has returned is answered from
queries that ran after the commit. A commit with a spot in it is that of a job which is no dry
run and in which every row succeeded. -/
theorem bulk_job_fresh {cfg : Settings} (hcfg : cfg.redisUrl = true) (be : Backend)
    (now : Timestamp) (newUid : ℕ → String) {job : Job} {request : SpotBulkRequest}
    (hjob : job.payload = .spots request) {κ : Type} [DecidableEq κ] (readers : κ → Reader)
    {s₀ : State (Option κ)} (hcold : ColdStart s₀) {tc : ℕ} {uids : List String}
    {c₁ c₂ : Config (Option κ) Exc Command (State (Option κ)) (Option Reply)}
    (h₁ : Run (sessions (StoresInTime tc (upsertedKeys uids)))
      ⟨s₀, jobAndReaders cfg be now newUid job readers⟩ c₁)
    (h₂ : Run (sessions (StoresInTime tc (upsertedKeys uids))) c₁ c₂)
    {a : Option Reply} (hreturned : c₁.thread none = closeSession (.ok a))
    {chs : List Change} (hcommit : c₁.state.At tc ⟨none, .commit chs⟩) (huids : uids ≠ [])
    (hupserted : ∀ uid ∈ uids, ∃ columns, Change.spot uid columns ∈ chs)
    {j : κ} (hstart : c₁.thread (some j) = withSession ((readers j).program cfg be))
    {b : Option Reply} (hdone : c₂.thread (some j) = closeSession (.ok b)) :
    ∀ t ∈ c₂.state.prov (some j), tc < t := by
  have hall₁ := h₁.allMeet kept_bodiesInTime.fits
    (hcold.allMeet_job hcfg be now newUid hjob readers tc (upsertedKeys uids))
  -- the job has raised every version it owes
  have hraised : ∀ vk ∈ upsertedKeys uids, ∃ m tb, RaisedAt vk m tb c₁.state := by
    have hmeets := hall₁.meets none
    rw [hreturned] at hmeets
    have hannounced : Announced none (endTx none (c₁.state.log none .rollback)) :=
      Meets.of_returned (M := fun _ => Announced none) kept_bodiesInTime.sharedStep
        (storesInTime_rollback _ _) hall₁.inv hmeets
    have howed : ∀ uid ∈ uids, ∀ vk ∈ listAndDetail uid, ∃ m tb, RaisedAt vk m tb c₁.state := by
      intro uid huid vk hvk
      obtain ⟨columns, hch⟩ := hupserted uid huid
      obtain ⟨m, tb, hat⟩ :=
        hannounced tc chs (World.at_log.2 (.inl hcommit)) uid columns hch vk hvk
      exact ⟨m, tb, (raisedAt_log (by simp) vk m tb).1 ⟨none, hat⟩⟩
    intro vk hvk
    rcases List.mem_cons.1 hvk with rfl | hdetail
    · obtain ⟨uid, huid⟩ := List.exists_mem_of_ne_nil uids huids
      exact howed uid huid _ (List.mem_cons_self ..)
    · obtain ⟨uid, huid, rfl⟩ := List.mem_map.1 hdetail
      exact howed uid huid _ (List.mem_cons_of_mem _ (List.mem_singleton_self _))
  -- the reader starts at a version no lower than the one the job has raised to
  let r := readers j
  obtain ⟨k, tb, hk, hreached⟩ : ∃ k tb,
      (r.versionKey ∈ upsertedKeys uids → RaisedAt r.versionKey k tb c₁.state) ∧
        k ≤ c₁.state.counter r.versionKey := by
    by_cases hmem : r.versionKey ∈ upsertedKeys uids
    · obtain ⟨m, tb, hat⟩ := hraised _ hmem
      exact ⟨m, tb, fun _ => hat, hall₁.inv.1.raised_le _ m tb r.isVersionKey hat⟩
    · exact ⟨0, 0, fun h => absurd h hmem, Nat.zero_le _⟩
  have hafter : AfterCommit tc (upsertedKeys uids) r.versionKey k tb c₁.state :=
    ⟨hall₁.inv.2, ⟨_, hcommit⟩, hk⟩
  have hall₂ : AllMeet (sessions (StoresInTime tc (upsertedKeys uids)))
      (cacheContract (AfterCommit tc (upsertedKeys uids) r.versionKey k tb)) JobLeaves c₁ := by
    refine ⟨⟨hall₁.inv.1, hafter⟩, fun i => ?_⟩
    exact kept_afterCommit.meets (fun _ h => ⟨h.1, h.2.bodies⟩) (fun _ h => h.1) (hall₁.meets i)
  have hprov : c₁.state.prov (some j) = [] :=
    (prov_of_idle h₁.of_guarded hstart).trans (hcold.idle (some j)).2
  exact r.informed_of_run be kept_afterCommit hcfg (storesInTime_rollback _) vetted_afterCommit
    hall₂ h₂ hstart ⟨hprov, hreached⟩ hdone

/-! ## Runs -/

namespace Sample

/-- A job that inserts one spot, among readers of the list. -/
def jobAndLists {κ : Type} : Option κ → App (Option Reply) :=
  jobAndReaders settings backend 0 (fun _ => "n") runningJob fun _ => .list listAll

/-- The job's handler. -/
def apply : App (Except Exc JobResult) :=
  (setAuditUser runningJob.createdBy).bind fun _ =>
    (runHandler settings backend 0 (fun _ => "n") runningJob.payload).attempt

/-- What `process_job` does with the handler's outcome. -/
def record (outcome : Except Exc JobResult) : App (Option Reply) :=
  (flushJob runningJob.uid (recordOutcome 0 outcome)).bind fun _ => commit.bind fun _ =>
    Prog.bind (match outcome with
      | .ok _ => .ret ()
      | .error e => if e.isException then .ret () else .raise e) fun _ => .ret none

def resume (r : Except Exc (Except Exc JobResult)) : App (Option Reply) :=
  ((Prog.ofExcept r).bind record).attempt.bind closeSession

/-- The job runs its handler and goes on with the outcome. -/
theorem jobAndLists_job (κ : Type) : (jobAndLists : Option κ → _) none =
    apply.attempt.bind resume := by
  show ((processJob _ _ _ _ _).bind _).attempt.bind closeSession =
    apply.attempt.bind fun r => ((Prog.ofExcept r).bind record).attempt.bind closeSession
  rw [← Prog.bind_assoc, ← Prog.attempt_bind]
  simp only [processJob, apply, Prog.bind_eq_bind, Prog.bind_assoc]
  rfl

/-- The session stores nothing, or only what it learnt after `tc`. -/
def storesYoung {ι : Type} (tc : ℕ) (j : ι) (s s' : State ι) : Bool :=
  (s'.trace.getLast?.all fun e =>
    match e.action with
    | .set _ => false
    | _ => true) || (s.prov j).all fun t => tc < t

theorem storesInTime_of_young {ι : Type} {tc : ℕ} {keys : List String} {j : ι} {s s' : State ι}
    (h : storesYoung tc j s s' = true) : StoresInTime tc keys j s s' := by
  intro key vk n htrace _
  simp only [storesYoung, htrace, List.getLast?_append, Bool.or_eq_true] at h
  rcases h with h | h
  · simp at h
  · refine .inl fun t ht => ?_
    simpa using List.all_eq_true.1 h t ht

end Sample

/-- The job commits at time 5; a list that is asked for afterwards, and stored, comes from
later queries. -/
theorem bulk_job_fresh_list :
    ∃ c₁ c₂ : Config (Option Unit) Exc Command (State (Option Unit)) (Option Reply),
      Run (sessions (StoresInTime 5 (upsertedKeys ["n"])))
        ⟨World.fresh Sample.oneJob, Sample.jobAndLists⟩ c₁ ∧
      Run (sessions (StoresInTime 5 (upsertedKeys ["n"]))) c₁ c₂ ∧
      (c₂.state.prov (some ())).length = 2 ∧ ∀ t ∈ c₂.state.prov (some ()), 5 < t := by
  let young := fun (j : Option Unit) s s' => Sample.storesYoung 5 j s s' = true
  let execYoung : Option Unit → ∀ {β : Type}, Command β → State (Option Unit) →
      Option (Except Exc β × State (Option Unit)) := guardExec (fun i => exec i) young
  let job : App (Option Reply) := (processJob Sample.settings Sample.backend 0 (fun _ => "n")
    Sample.runningJob).bind fun _ => .ret none
  let list : App (Option Reply) :=
      (Reader.list Sample.listAll).program Sample.settings Sample.backend
  let chs : List Change := [.spot "n" ["title", "rating_avg", "review_count"], .job "j"]
  have hboth : ((runAlone execYoung none job (World.fresh Sample.oneJob)).bind fun out₁ =>
      (runAlone execYoung (some ()) list out₁.2).bind fun out₂ =>
        if out₁.1.isOk ∧ out₂.1.isOk ∧ (out₂.2.prov (some ())).length = 2 ∧
          out₁.2.trace[5]? = some ⟨none, .commit chs⟩
        then some () else none) = some () := by
    decide +kernel
  obtain ⟨⟨r₁, s₁⟩, hrun₁, hboth⟩ := Option.bind_eq_some_iff.1 hboth
  obtain ⟨⟨r₂, s₂⟩, hrun₂, hboth⟩ := Option.bind_eq_some_iff.1 hboth
  split at hboth
  · rename_i hcheck
    obtain ⟨hok₁, hok₂, hlen, hcommit⟩ := hcheck
    obtain ⟨a, rfl⟩ : ∃ a, r₁ = .ok a := by
      cases r₁ with
      | ok a => exact ⟨a, rfl⟩
      | error e => cases hok₁
    obtain ⟨b, rfl⟩ : ∃ b, r₂ = .ok b := by
      cases r₂ with
      | ok b => exact ⟨b, rfl⟩
      | error e => cases hok₂
    let start : Option Unit → App (Option Reply) := Sample.jobAndLists
    have hyoung : ∀ {c c' : Config (Option Unit) Exc Command (State (Option Unit)) (Option Reply)},
        Run (.ofExec execYoung Env) c c' →
        Run (sessions (StoresInTime 5 (upsertedKeys ["n"]))) c c' := fun h =>
      Run.guarded_mono (fun _ _ _ => Sample.storesInTime_of_young) (Run.of_guardExec h)
    have h₁ := hyoung (run_of_runAlone (c := ⟨World.fresh Sample.oneJob, start⟩)
      (f := closeSession) hrun₁ rfl)
    have h₂ := hyoung (run_of_runAlone
      (c := ⟨s₁, Function.update start none (closeSession (.ok a))⟩) (f := closeSession) hrun₂ rfl)
    refine ⟨_, _, h₁, h₂, hlen, ?_⟩
    have hcold : ColdStart (World.fresh Sample.oneJob : State (Option Unit)) :=
      ⟨fun _ _ _ => nofun, rfl, fun _ => ⟨rfl, rfl⟩⟩
    have hupserted : ∀ uid ∈ ["n"], ∃ columns, Change.spot uid columns ∈ chs := by
      intro uid huid
      rw [List.mem_singleton.1 huid]
      exact ⟨_, List.mem_cons_self ..⟩
    have hpayload : Sample.runningJob.payload = .spots ⟨false, [{ title := "Camp" }]⟩ := rfl
    exact bulk_job_fresh rfl Sample.backend 0 (fun _ => "n") hpayload
      (fun _ => .list Sample.listAll) hcold h₁ h₂ rfl hcommit (by decide)
      hupserted
      (j := ()) rfl rfl
  · cases hboth

/-- A list that is asked for between the job's raise and its commit is stored under the raised
version: the list asked for after the job has returned is answered from the queries at times 6
and 7, before the commit at time 10. -/
theorem bulk_job_stale :
    ∃ c₁ c₂ : Config (Option Bool) Exc Command (State (Option Bool)) (Option Reply),
      Run platform ⟨World.fresh Sample.oneJob, Sample.jobAndLists⟩ c₁ ∧ Run platform c₁ c₂ ∧
      c₁.thread none = closeSession (.ok none) ∧
      c₁.state.At 10 ⟨none, .commit
        [.spot "n" ["title", "rating_avg", "review_count"], .job "j"]⟩ ∧
      c₁.thread (some true) = Sample.jobAndLists (some true) ∧
      (∃ b, c₂.thread (some true) = closeSession (.ok b)) ∧
      c₂.state.prov (some true) = [7, 6] := by
  let execAll : Option Bool → ∀ {β : Type}, Command β → State (Option Bool) →
      Option (Except Exc β × State (Option Bool)) := fun i => exec i
  let list : App (Option Reply) :=
      (Reader.list Sample.listAll).program Sample.settings Sample.backend
  have hfour : ((runAlone execAll none Sample.apply (World.fresh Sample.oneJob)).bind fun out₁ =>
      (runAlone execAll (some false) list out₁.2).bind fun out₂ =>
        (runAlone execAll none ((Prog.ofExcept out₁.1).bind Sample.record) out₂.2).bind fun out₃ =>
          (runAlone execAll (some true) list out₃.2).bind fun out₄ =>
            if out₃.1.toOption.map Option.isNone = some true ∧ out₄.1.isOk ∧
              out₃.2.trace[10]? = some ⟨none, .commit
                [.spot "n" ["title", "rating_avg", "review_count"], .job "j"]⟩ ∧
              out₄.2.prov (some true) = [7, 6]
            then some () else none) = some () := by
    decide +kernel
  obtain ⟨⟨r₁, s₁⟩, hrun₁, hfour⟩ := Option.bind_eq_some_iff.1 hfour
  obtain ⟨⟨r₂, s₂⟩, hrun₂, hfour⟩ := Option.bind_eq_some_iff.1 hfour
  obtain ⟨⟨r₃, s₃⟩, hrun₃, hfour⟩ := Option.bind_eq_some_iff.1 hfour
  obtain ⟨⟨r₄, s₄⟩, hrun₄, hfour⟩ := Option.bind_eq_some_iff.1 hfour
  split at hfour
  · rename_i hcheck
    obtain ⟨hok₃, hok₄, hcommit, hprov⟩ := hcheck
    obtain rfl : r₃ = .ok none := by
      cases r₃ with
      | error e => cases hok₃
      | ok a =>
        cases a with
        | none => rfl
        | some x => cases hok₃
    obtain ⟨b, rfl⟩ : ∃ b, r₄ = .ok b := by
      cases r₄ with
      | ok b => exact ⟨b, rfl⟩
      | error e => cases hok₄
    let start : Option Bool → App (Option Reply) := Sample.jobAndLists
    let going := Function.update start none (Sample.resume r₁)
    have h₁ : Run platform ⟨World.fresh Sample.oneJob, start⟩ ⟨s₁, going⟩ :=
      run_of_runAlone (f := Sample.resume) hrun₁ (Sample.jobAndLists_job Bool)
    have h₂ : Run platform ⟨s₁, going⟩
        ⟨s₂, Function.update going (some false) (closeSession r₂)⟩ := run_of_runAlone hrun₂ rfl
    have h₃ : Run platform ⟨s₂, Function.update going (some false) (closeSession r₂)⟩
        ⟨s₃, Function.update (Function.update going (some false) (closeSession r₂)) none
          (closeSession (.ok none))⟩ := run_of_runAlone hrun₃ rfl
    have h₄ : Run platform ⟨s₃, Function.update (Function.update going (some false)
        (closeSession r₂)) none (closeSession (.ok none))⟩ _ :=
      run_of_runAlone (f := closeSession) hrun₄ rfl
    exact ⟨_, _, (h₁.trans h₂).trans h₃, h₄, rfl, hcommit, rfl, ⟨b, rfl⟩, hprov⟩
  · cases hfour

end Vivac
