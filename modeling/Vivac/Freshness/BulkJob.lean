import Vivac.Freshness.Writers
import Vivac.Workers.JobWorker

/-!
# What a spots bulk job raises

The handler raises the versions of what it upserted before `process_job` commits. Up to
the commit the changes of the session are bounded by the rows that went through, at
every open savepoint (`Upserting`); a job that returns has raised the versions of every
spot it committed (`triple_processJob_announced`), but before the commit.
-/

set_option autoImplicit false

namespace Vivac

open Lib App

section Assertions

variable {ι : Type}

/-- The spots that are changed are among `uids`. -/
def SpotsWithin (uids : List String) (chs : List Change) : Prop :=
  ∀ uid columns, Change.spot uid columns ∈ chs → uid ∈ uids

/-- Session `i` has raised `vk`. -/
def RaisedBy (i : ι) (vk : String) (s : State ι) : Prop := ∃ m t, s.At t ⟨i, .incr vk m⟩

/-- Session `i` has not committed. -/
def Uncommitted (i : ι) (s : State ι) : Prop := ∀ t chs, ¬s.At t ⟨i, .commit chs⟩

/-- The transaction of session `i` takes no statement. -/
def Refused (i : ι) (s : State ι) : Prop := (s.tx i).status ≠ .active

/-- Session `i` has not committed; its changes are to the spots `uids`, and those its
savepoints keep are to the spots `saved`. -/
structure Upserting (uids : List String) (saved : List (List String)) (i : ι) (s : State ι) :
    Prop where
  uncommitted : Uncommitted i s
  changed : SpotsWithin uids (s.tx i).work.changes
  saved : (s.tx i).status = .lost ∨
    List.Forall₂ (fun w us => SpotsWithin us w.changes) (s.tx i).saved saved

/-- Session `i` has not committed; its changes are to the spots `uids`, and it has raised
`raised`. -/
structure Raising (uids raised : List String) (i : ι) (s : State ι) : Prop where
  uncommitted : Uncommitted i s
  changed : SpotsWithin uids (s.tx i).work.changes
  raised : ∀ vk ∈ raised, RaisedBy i vk s

/-- Session `i` has not committed, and has raised the versions of every spot it changed. -/
structure Covered (i : ι) (s : State ι) : Prop where
  uncommitted : Uncommitted i s
  raised : ∀ uid columns, Change.spot uid columns ∈ (s.tx i).work.changes →
    ∀ vk ∈ listAndDetail uid, RaisedBy i vk s

/-- Session `i` has raised the versions of every spot it committed. -/
def Announced (i : ι) (s : State ι) : Prop :=
  ∀ t chs, s.At t ⟨i, .commit chs⟩ → ∀ uid columns, Change.spot uid columns ∈ chs →
    ∀ vk ∈ listAndDetail uid, RaisedBy i vk s

/-- `M` holds of the returned value; after an exception the transaction is refused. -/
def OrRefused {α : Type} (i : ι) (M : α → State ι → Prop) : Except Exc α → State ι → Prop
  | .ok a, s => M a s
  | .error _, s => Refused i s

variable {uids raised : List String} {saved : List (List String)} {i : ι} {s s' : State ι}

theorem SpotsWithin.mono {uids' : List String} {chs : List Change} (h : SpotsWithin uids chs)
    (hsub : uids ⊆ uids') : SpotsWithin uids' chs := fun uid columns hch =>
  hsub (h uid columns hch)

theorem SpotsWithin.append {chs chs' : List Change} (h : SpotsWithin uids chs)
    (h' : SpotsWithin uids chs') : SpotsWithin uids (chs ++ chs') := by
  intro uid columns hch
  rcases List.mem_append.1 hch with hch | hch
  · exact h uid columns hch
  · exact h' uid columns hch

theorem spotsWithin_nil : SpotsWithin uids [] := by
  intro uid columns hch
  cases hch

/-! ### The steps of the others -/

/-- What a session has changed stays, or is lost. -/
theorem changes_of_undisturbed (h : Undisturbed i s s') {ch : Change}
    (hch : ch ∈ (s'.tx i).work.changes) : ch ∈ (s.tx i).work.changes := by
  rcases h.tx with ⟨htx, -⟩ | hlost
  · rwa [htx] at hch
  · rw [hlost] at hch
    cases hch

theorem Uncommitted.undisturbed (h : Uncommitted i s) (hund : Undisturbed i s s') :
    Uncommitted i s' := fun t chs hat => h t chs (hund.at_of_own hat rfl)

theorem RaisedBy.undisturbed {vk : String} (h : RaisedBy i vk s) (hund : Undisturbed i s s') :
    RaisedBy i vk s' := by
  obtain ⟨m, t, hat⟩ := h
  exact ⟨m, t, hund.at_of_at hat⟩

theorem stable_refused :
    Stable (sessionContract CacheInvariant VersionStep) i (Refused (ι := ι) i) := by
  rintro s s' - ⟨hund, -⟩ h
  rcases hund.tx with ⟨htx, -⟩ | hlost
  · unfold Refused
    rwa [htx]
  · unfold Refused
    rw [hlost]
    simp

theorem stable_upserting :
    Stable (sessionContract CacheInvariant VersionStep) i (Upserting uids saved i) := by
  rintro s s' - ⟨hund, -⟩ h
  refine ⟨h.uncommitted.undisturbed hund, ?_, ?_⟩
  · intro uid columns hch
    exact h.changed uid columns (changes_of_undisturbed hund hch)
  · rcases hund.tx with ⟨htx, -⟩ | hlost
    · rw [htx]
      exact h.saved
    · exact .inl (by rw [hlost])

theorem stable_raising :
    Stable (sessionContract CacheInvariant VersionStep) i (Raising uids raised i) := by
  rintro s s' - ⟨hund, -⟩ h
  refine ⟨h.uncommitted.undisturbed hund, ?_, ?_⟩
  · intro uid columns hch
    exact h.changed uid columns (changes_of_undisturbed hund hch)
  · intro vk hvk
    exact (h.raised vk hvk).undisturbed hund

theorem stable_covered : Stable (sessionContract CacheInvariant VersionStep) i (Covered i) := by
  rintro s s' - ⟨hund, -⟩ h
  refine ⟨h.uncommitted.undisturbed hund, fun uid columns hch vk hvk => ?_⟩
  exact (h.raised uid columns (changes_of_undisturbed hund hch) vk hvk).undisturbed hund

theorem stable_announced :
    Stable (sessionContract CacheInvariant VersionStep) i (Announced i) := by
  rintro s s' - ⟨hund, -⟩ h t chs hat uid columns hch vk hvk
  exact (h t chs (hund.at_of_own hat rfl) uid columns hch vk hvk).undisturbed hund

theorem stable_orRefused {α : Type} {M : α → State ι → Prop}
    (hM : ∀ a, Stable (sessionContract CacheInvariant VersionStep) i (M a)) (r : Except Exc α) :
    Stable (sessionContract CacheInvariant VersionStep) i (OrRefused i M r) := by
  cases r with
  | ok a => exact hM a
  | error e => exact stable_refused

/-! ### The session's own steps -/

variable [DecidableEq ι] {ok : ι → State ι → State ι → Prop}

omit [DecidableEq ι] in
theorem Uncommitted.log {a : Action Change} (ha : ∀ chs, a ≠ .commit chs) (h : Uncommitted i s) :
    Uncommitted i (s.log i a) := fun t chs hat => h t chs (commit_of_log ha hat)

/-- What a session expects of the rest of its program, the refused case included. -/
theorem Triple.bind_orRefused {α β : Type} {P : State ι → Prop} {p : App α} {f : α → App β}
    {Q : Except Exc β → State ι → Prop} (M : α → State ι → Prop)
    (hp : Triple (sessions ok) (sessionContract CacheInvariant VersionStep) i P p (OrRefused i M))
    (hf : ∀ a, Triple (sessions ok) (sessionContract CacheInvariant VersionStep) i (M a) (f a) Q)
    (hQ : ∀ e s, Refused i s → Q (.error e) s) :
    Triple (sessions ok) (sessionContract CacheInvariant VersionStep) i P (p.bind f) Q := by
  refine Triple.bind cacheFits M (hp.conseq (fun _ _ h => h) fun r s _ h => ?_) hf
  cases r with
  | ok a => exact h
  | error e => exact hQ e s h

/-- A statement adds its spots; one that fails leaves the transaction refused. -/
theorem triple_upsert {R : Type} {st : Statement R} (uids' : R → List String)
    (hsub : ∀ r, uids ⊆ uids' r)
    (hst : ∀ locked d eff, st locked d = .ok eff → SpotsWithin (uids' eff.result) eff.changes) :
    Triple (sessions ok) (sessionContract CacheInvariant VersionStep) i (Upserting uids saved i)
      (execute st) fun r s =>
        match r with
        | .ok a => Upserting (uids' a) saved i s
        | .error _ => Upserting uids saved i s ∧ Refused i s := by
  refine Triple.command stable_upserting (fun r => ?_) fun s r s' hi h hexec _ => ?_
  · cases r with
    | ok a => exact stable_upserting
    | error e => exact fun s s' hi hr h => ⟨stable_upserting s s' hi hr h.1,
        stable_refused s s' hi hr h.2⟩
  · obtain ⟨hinv, hT⟩ := keeps_cacheInvariant hi (c := .sql st) trivial hexec
    refine ⟨hinv, hT, ?_⟩
    rcases exec_sql_cases hexec with ⟨hst', ⟨e, rfl⟩, rfl⟩ | ⟨hst', e, -, rfl, rfl⟩ |
      ⟨hst', eff, heff, -, rfl, rfl⟩
    · exact ⟨h, hst'⟩
    · have hfailed : ((((s.query i).setTx i { s.tx i with status := .failed }).tx i).status) =
          .failed := by simp [World.setTx]
      refine ⟨⟨h.uncommitted.log (by simp), ?_, ?_⟩, by simp [Refused, hfailed]⟩
      · simpa [World.setTx] using h.changed
      · rcases h.saved with hlost | hsaved
        · rw [hst'] at hlost
          cases hlost
        · exact .inr (by simpa [World.setTx] using hsaved)
    · refine ⟨h.uncommitted.log (by simp), ?_, ?_⟩
      · have hboth := (h.changed.mono (hsub eff.result)).append (hst _ _ eff heff)
        simpa [World.setTx] using hboth
      · rcases h.saved with hlost | hsaved
        · rw [hst'] at hlost
          cases hlost
        · exact .inr (by simpa [World.setTx] using hsaved)

theorem triple_beginNested :
    Triple (sessions ok) (sessionContract CacheInvariant VersionStep) i (Upserting uids saved i)
      beginNested (OrRefused i fun _ => Upserting uids (uids :: saved) i) := by
  refine Triple.command stable_upserting (stable_orRefused fun _ => stable_upserting)
    fun s r s' hi h hexec _ => ?_
  obtain ⟨hinv, hT⟩ := keeps_cacheInvariant hi (c := .savepoint) trivial hexec
  refine ⟨hinv, hT, ?_⟩
  simp only [exec, onActive] at hexec
  split at hexec
  · rename_i hst
    cases hexec
    refine ⟨h.uncommitted, ?_, ?_⟩
    · simpa [World.setTx] using h.changed
    · rcases h.saved with hlost | hsaved
      · rw [hst] at hlost
        cases hlost
      · refine .inr ?_
        simpa [World.setTx] using ⟨h.changed, hsaved⟩
  · rename_i hst
    cases hexec
    simp [OrRefused, Refused, hst]
  · rename_i hst
    cases hexec
    simp [OrRefused, Refused, hst]

theorem triple_releaseNested {us : List String} :
    Triple (sessions ok) (sessionContract CacheInvariant VersionStep) i
      (Upserting uids (us :: saved) i) releaseNested
      (OrRefused i fun _ => Upserting uids saved i) := by
  refine Triple.command stable_upserting (stable_orRefused fun _ => stable_upserting)
    fun s r s' hi h hexec _ => ?_
  obtain ⟨hinv, hT⟩ := keeps_cacheInvariant hi (c := .release) trivial hexec
  refine ⟨hinv, hT, ?_⟩
  simp only [exec, onActive] at hexec
  split at hexec
  · rename_i hst
    cases hexec
    refine ⟨h.uncommitted, ?_, ?_⟩
    · simpa [World.setTx] using h.changed
    · rcases h.saved with hlost | hsaved
      · rw [hst] at hlost
        cases hlost
      · refine .inr ?_
        obtain ⟨w, ws, hw, hws, heq⟩ := List.forall₂_cons_right_iff.1 hsaved
        simpa [World.setTx, heq] using hws
  · rename_i hst
    cases hexec
    simp [OrRefused, Refused, hst]
  · rename_i hst
    cases hexec
    simp [OrRefused, Refused, hst]

theorem triple_rollbackNested {us : List String} :
    Triple (sessions ok) (sessionContract CacheInvariant VersionStep) i
      (Upserting uids (us :: saved) i) rollbackNested
      (OrRefused i fun _ => Upserting us saved i) := by
  refine Triple.command stable_upserting (stable_orRefused fun _ => stable_upserting)
    fun s r s' hi h hexec _ => ?_
  obtain ⟨hinv, hT⟩ := keeps_cacheInvariant hi (c := .rollbackTo) trivial hexec
  refine ⟨hinv, hT, ?_⟩
  simp only [exec] at hexec
  split at hexec
  · rename_i hst
    cases hexec
    simp [OrRefused, Refused, hst]
  · rename_i hst
    cases hexec
    rcases h.saved with hlost | hsaved
    · exact absurd hlost hst
    · obtain ⟨w, ws, hw, hws, heq⟩ := List.forall₂_cons_right_iff.1 hsaved
      simp only [OrRefused, execRollbackTo, heq]
      refine ⟨h.uncommitted, ?_, .inr ?_⟩
      · simpa [World.setTx] using hw
      · simpa [World.setTx] using hws

end Assertions

/-! ## The handler -/

section Handler

variable {ι : Type} [DecidableEq ι] {ok : ι → State ι → State ι → Prop} {i : ι}
  {uids raised : List String} {saved : List (List String)} {cfg : Settings} {be : Backend}
  {now : Timestamp} {newUid : ℕ → String}

/-- An upsert changes the spot it answers. -/
theorem spotsWithin_insertOnConflict {uid : String} {row : SpotBulkRow} {locked : RowKey → Bool}
    {d : Db} {eff : Effect Db RowKey Change (List String)}
    (h : insertOnConflict be now uid row locked d = .ok eff) :
    SpotsWithin eff.result.head?.toList eff.changes := by
  unfold insertOnConflict at h
  split at h
  · cases h
  split at h
  · cases h
  split at h
  · -- an update of one spot, whose uid is all the statement can answer
    rename_i t hconflict
    have hall : ∀ uid ∈ eff.result, uid = t.uid := by
      intro uid huid
      rw [result_updateSpots be h] at huid
      obtain ⟨r, hr, rfl⟩ := List.mem_map.1 huid
      simpa using (Table.mem_select.1 hr).2
    intro uid columns hch
    rw [changes_updateSpots be h] at hch
    obtain ⟨uid', huid', heq⟩ := List.mem_map.1 hch
    cases heq
    cases hres : eff.result with
    | nil =>
      rw [hres] at huid'
      cases huid'
    | cons first rest =>
      have hfirst : first = t.uid := hall first (by simp [hres])
      simp [hall uid huid', hfirst]
  · split at h
    · cases h
    · cases h
      intro uid' columns hch
      simp only [List.mem_singleton, Change.spot.injEq] at hch
      simp [hch.1]

theorem triple_upsertSpotRow (index : ℕ) (row : SpotBulkRow) :
    Triple (sessions ok) (sessionContract CacheInvariant VersionStep) i (Upserting uids saved i)
      (upsertSpotRow be now newUid index row) fun r s =>
        match r with
        | .ok u => Upserting (uids ++ u.toList) saved i s
        | .error _ => Upserting uids saved i s ∧ Refused i s := by
  refine Triple.bind cacheFits (fun result => Upserting (uids ++ result.head?.toList) saved i)
    ((triple_upsert (fun result => uids ++ result.head?.toList)
      (fun result => List.subset_append_left _ _) ?_).conseq (fun _ _ h => h) ?_) fun result => ?_
  · intro locked d eff h uid columns hch
    exact List.mem_append_right _ (spotsWithin_insertOnConflict h uid columns hch)
  · intro r s _ h
    cases r with
    | ok result => exact h
    | error e => exact h
  · exact fun s _ h s' hi hr => stable_upserting s s' hi hr h

/-- The rows in order: what is changed is what has been upserted. -/
theorem triple_bulkRows_upserting (index : ℕ) (rows : List SpotBulkRow)
    (p : BulkProgress (Option String)) :
    Triple (sessions ok) (sessionContract CacheInvariant VersionStep) i
      (Upserting (p.upserted.filterMap id) saved i)
      (bulkRows (upsertSpotRow be now newUid) index rows p)
      (OrRefused i fun p' => Upserting (p'.upserted.filterMap id) saved i) := by
  induction rows generalizing index p with
  | nil => exact fun s _ h s' hi hr => stable_upserting s s' hi hr h
  | cons row rows ih =>
    refine Triple.bind_orRefused _ triple_beginNested (fun _ => ?_) fun e s h => h
    refine Triple.bind_attempt cacheFits (triple_upsertSpotRow index row) fun r => ?_
    cases r with
    | ok u =>
      have hsucceed : (p.succeed u).upserted.filterMap id =
          p.upserted.filterMap id ++ u.toList := by
        cases u <;> simp [BulkProgress.succeed]
      refine Triple.bind_orRefused _ triple_releaseNested (fun _ => ?_) fun e s h => h
      rw [← hsucceed]
      exact ih (index + 1) (p.succeed u)
    | error e =>
      dsimp only
      split
      · -- the row's savepoint gives its changes back
        refine Triple.conseq (P := Upserting _ (p.upserted.filterMap id :: saved) i) ?_
          (fun s _ h => h.1) fun r s _ h => h
        refine Triple.bind_orRefused _ triple_rollbackNested (fun _ => ?_) fun e s h => h
        exact ih (index + 1) (p.fail index e)
      · exact fun s _ h s' hi hr => stable_refused s s' hi hr h.2

/-- A raise, by the session itself. -/
theorem triple_bump_raising (hcfg : cfg.redisUrl = true) {vk : String}
    (hvk : Cache.IsVersionKey vk) :
    Triple (sessions ok) (sessionContract CacheInvariant VersionStep) i (Raising uids raised i)
      (Cache.bump cfg vk) (OrRefused i fun _ => Raising uids (vk :: raised) i) := by
  have hincr : Triple (sessions ok) (sessionContract CacheInvariant VersionStep) i
      (Raising uids raised i) (.perform (.incr vk) : App Unit) fun r s =>
        match r with
        | .ok _ => Raising uids (vk :: raised) i s
        | .error _ => False := by
    refine Triple.command stable_raising (fun r => ?_) fun s r s' hi h hexec _ => ?_
    · cases r with
      | ok a => exact stable_raising
      | error e => exact fun _ _ _ _ h => h.elim
    · obtain ⟨hinv, hT⟩ := keeps_cacheInvariant hi (c := .incr vk) trivial hexec
      refine ⟨hinv, hT, ?_⟩
      rcases exec_incr_cases hexec with ⟨v, p, hbody, -, -⟩ | ⟨-, rfl, rfl⟩
      · exact absurd hbody (hi.no_body vk hvk v p)
      · refine ⟨h.uncommitted.log (by simp), h.changed, fun vk' hvk' => ?_⟩
        rcases List.mem_cons.1 hvk' with rfl | hvk'
        · exact ⟨_, _, World.at_log.2 (.inr ⟨rfl, rfl⟩)⟩
        · obtain ⟨m, t, hat⟩ := h.raised vk' hvk'
          exact ⟨m, t, World.at_log.2 (.inl hat)⟩
  unfold Cache.bump
  rw [if_pos hcfg]
  refine Triple.tryCatch cacheFits _ hincr (fun a => ?_) fun e => fun _ _ h => h.elim
  exact fun s _ h s' hi hr => stable_raising s s' hi hr h

/-- The list version and the detail versions of the spots are raised. -/
theorem triple_invalidateSpots_raising (hcfg : cfg.redisUrl = true) (uids : List String) :
    Triple (sessions ok) (sessionContract CacheInvariant VersionStep) i (Raising uids [] i)
      (invalidateSpots cfg uids) (OrRefused i fun _ => Covered i) := by
  have hloop : ∀ rest raised : List String,
      Triple (sessions ok) (sessionContract CacheInvariant VersionStep) i (Raising uids raised i)
        (forEach (Cache.invalidateSpotDetail cfg) rest) (OrRefused i fun _ s =>
          Raising uids raised i s ∧ ∀ u ∈ rest, RaisedBy i (Cache.spotDetailVersionKey u) s) := by
    intro rest
    induction rest with
    | nil =>
      intro raised s _ h s' hi hr
      exact ⟨stable_raising s s' hi hr h, by simp⟩
    | cons u rest ih =>
      intro raised
      refine Triple.bind_orRefused _ (triple_bump_raising hcfg (.inr ⟨u, rfl⟩))
        (fun _ => (ih _).conseq (fun _ _ h => h) fun r s _ h => ?_) fun e s h => h
      cases r with
      | error e => exact h
      | ok a =>
        obtain ⟨hraising, hrest⟩ := h
        refine ⟨⟨hraising.uncommitted, hraising.changed, fun vk hvk => ?_⟩, fun u' hu' => ?_⟩
        · exact hraising.raised vk (List.mem_cons_of_mem _ hvk)
        · rcases List.mem_cons.1 hu' with rfl | hu'
          · exact hraising.raised _ (List.mem_cons_self ..)
          · exact hrest u' hu'
  refine Triple.bind_orRefused _ (triple_bump_raising hcfg (.inl rfl))
    (fun _ => (hloop uids _).conseq (fun _ _ h => h) fun r s _ h => ?_) fun e s h => h
  cases r with
  | error e => exact h
  | ok a =>
    obtain ⟨hraising, hdetails⟩ := h
    refine ⟨hraising.uncommitted, fun uid columns hch vk hvk => ?_⟩
    have huid := hraising.changed uid columns hch
    simp only [listAndDetail, List.mem_cons, List.not_mem_nil, or_false] at hvk
    rcases hvk with rfl | rfl
    · exact hraising.raised _ (List.mem_cons_self ..)
    · exact hdetails uid huid

/-- When the handler returns, every spot it leaves changed has had its versions raised. -/
theorem triple_spotsBulkUpsertHandler (hcfg : cfg.redisUrl = true) (request : SpotBulkRequest) :
    Triple (sessions ok) (sessionContract CacheInvariant VersionStep) i (Upserting [] [] i)
      (spotsBulkUpsertHandler cfg be now newUid request) (OrRefused i fun _ => Covered i) := by
  refine Triple.bind_orRefused _ triple_beginNested (fun _ => ?_) fun e s h => h
  refine Triple.bind_orRefused _ (triple_bulkRows_upserting 0 request.rows {}) (fun p => ?_)
    fun e s h => h
  refine Triple.bind_orRefused (fun _ => Covered i) ?_
    (fun _ => fun s _ h s' hi hr => stable_covered s s' hi hr h) fun e s h => h
  unfold leaveOuter
  split
  · refine triple_rollbackNested.conseq (fun _ _ h => h) fun r s _ h => ?_
    cases r with
    | error e => exact h
    | ok a =>
      refine ⟨h.uncommitted, fun uid columns hch => ?_⟩
      cases h.changed uid columns hch
  · refine Triple.bind_orRefused _ triple_releaseNested (fun _ => ?_) fun e s h => h
    refine (triple_invalidateSpots_raising hcfg _).conseq (fun s _ h => ?_) fun _ _ _ h => h
    exact ⟨h.uncommitted, h.changed, by simp⟩

end Handler

/-! ## The job -/

section Job

variable {ι : Type} [DecidableEq ι] {ok : ι → State ι → State ι → Prop} {i : ι} {cfg : Settings}

/-- A statement that changes no spot; a refused transaction answers none. -/
theorem triple_execute_covered {R : Type} {st : Statement R}
    (hst : ∀ locked d eff, st locked d = .ok eff → SpotsWithin [] eff.changes) :
    Triple (sessions ok) (sessionContract CacheInvariant VersionStep) i
      (fun s => Covered i s ∨ Refused i s) (execute st) (Returns fun _ => Covered i) := by
  have hstable : Stable (sessionContract CacheInvariant VersionStep) i
      fun s => Covered i s ∨ Refused i s := by
    intro s s' hi hr h
    rcases h with h | h
    · exact .inl (stable_covered s s' hi hr h)
    · exact .inr (stable_refused s s' hi hr h)
  refine Triple.command hstable (fun r => ?_) fun s r s' hi h hexec _ => ?_
  · cases r with
    | ok a => exact stable_covered
    | error e => exact fun _ _ _ _ _ => trivial
  · obtain ⟨hinv, hT⟩ := keeps_cacheInvariant hi (c := .sql st) trivial hexec
    refine ⟨hinv, hT, ?_⟩
    rcases exec_sql_cases hexec with ⟨-, ⟨e, rfl⟩, -⟩ | ⟨-, e, -, rfl, -⟩ |
      ⟨hactive, eff, heff, -, rfl, rfl⟩
    · trivial
    · trivial
    · rcases h with h | h
      · refine ⟨h.uncommitted.log (by simp), fun uid columns hch vk hvk => ?_⟩
        simp only [World.setTx, Function.update_self, List.mem_append] at hch
        rcases hch with hch | hch
        · obtain ⟨m, t, hat⟩ := h.raised uid columns hch vk hvk
          exact ⟨m, t, World.at_log.2 (.inl hat)⟩
        · cases hst _ _ eff heff uid columns hch
      · exact absurd hactive h

theorem triple_commit_covered :
    Triple (sessions ok) (sessionContract CacheInvariant VersionStep) i (Covered i) commit
      (Returns fun _ => Announced i) := by
  refine Triple.command stable_covered (fun r => ?_) fun s r s' hi h hexec _ => ?_
  · cases r with
    | ok a => exact stable_announced
    | error e => exact fun _ _ _ _ _ => trivial
  · obtain ⟨hinv, hT⟩ := keeps_cacheInvariant hi (c := .commit) trivial hexec
    refine ⟨hinv, hT, ?_⟩
    rcases exec_commit_cases hexec with ⟨-, rfl, rfl⟩ | ⟨-, rfl, rfl⟩ | ⟨-, ⟨e, rfl⟩, -⟩
    · intro t chs hat uid columns hch vk hvk
      rcases World.at_log.1 (show (World.log _ i _).At t _ from hat) with hat | ⟨-, he⟩
      · exact absurd hat (h.uncommitted t chs)
      · cases he
        obtain ⟨m, tr, hraised⟩ := h.raised uid columns hch vk hvk
        exact ⟨m, tr, World.at_log.2 (.inl hraised)⟩
    · intro t chs hat
      exact absurd (commit_of_log (by simp) hat) (h.uncommitted t chs)
    · trivial

/-- A spots job that returns has raised the versions of every spot it committed. -/
theorem triple_processJob_announced (be : Backend) (now : Timestamp) (newUid : ℕ → String)
    (hcfg : cfg.redisUrl = true) {job : Job} {request : SpotBulkRequest}
    (hjob : job.payload = .spots request) :
    Triple (sessions ok) (sessionContract CacheInvariant VersionStep) i (Upserting [] [] i)
      (processJob cfg be now newUid job) (Returns fun _ => Announced i) := by
  have hread : Triple (sessions ok) (sessionContract CacheInvariant VersionStep) i
      (Upserting [] [] i) (setAuditUser job.createdBy) (Returns fun _ => Upserting [] [] i) := by
    refine (triple_upsert (fun _ => []) (fun _ => List.Subset.refl _) ?_).conseq
      (fun _ _ h => h) fun r s _ h => ?_
    · intro locked d eff h
      cases h
      exact spotsWithin_nil
    · cases r with
      | ok a => exact h
      | error e => trivial
  refine Triple.bind_returns cacheFits _ hread fun _ => ?_
  refine Triple.bind_attempt cacheFits (M := fun _ s => Covered i s ∨ Refused i s) ?_
    fun outcome => ?_
  · rw [hjob]
    refine Triple.bind cacheFits (fun _ => Covered i)
      ((triple_spotsBulkUpsertHandler hcfg request).conseq (fun _ _ h => h) fun r s _ h => ?_)
      fun result => ?_
    · cases r with
      | ok result => exact h
      | error e => exact .inr h
    · exact fun s _ h s' hi hr => .inl (stable_covered s s' hi hr h)
  · have hflush : Triple (sessions ok) (sessionContract CacheInvariant VersionStep) i
        (fun s => Covered i s ∨ Refused i s) (flushJob job.uid (recordOutcome now outcome))
        (Returns fun _ => Covered i) := by
      refine Triple.bind_returns cacheFits _ (triple_execute_covered ?_) fun uids => ?_
      · intro locked d eff h uid columns hch
        cases h
        simp at hch
      · split
        · exact Triple.raise_returns
        · exact Triple.ret_returns stable_covered fun _ _ h => h
    refine Triple.bind_returns cacheFits _ hflush fun _ => ?_
    refine Triple.bind_returns cacheFits _ triple_commit_covered fun _ => ?_
    split
    · exact Triple.ret_returns stable_announced fun _ _ h => h
    · split
      · exact Triple.ret_returns stable_announced fun _ _ h => h
      · exact Triple.raise_returns

end Job

end Vivac
