import Vivac.Core.Contracts
import Vivac.Core.SampleBackend
import Vivac.Jobs.RowsInOrder
import Vivac.Workers.SpotBusinessInfoBulk
import Vivac.Workers.SpotsBulk

/-!
# Bulk handlers are all-or-nothing

What one row of each handler does to the tables, and the law of both: the rows are
executed in order, and kept when none fails and the request is no dry run.
-/

set_option autoImplicit false

namespace Vivac

open Lib App

/-! ## One row -/

section Rows

variable (be : Backend) (now : Timestamp) (newUid : ℕ → String)

/-- A row of a spots request: one statement. -/
def spotRow : RowStep SpotBulkRow (Option String) := fun index row d =>
  ((insertOnConflict be now (newUid index) row).apply d).map fun out => (out.1.head?, out.2)

/-- The business info of a spot, updated where it differs, or added. -/
def writeInfo (uid spotUid : String) (fields : List InfoAttr) (d : Db) : Except Exc (Unit × Db) :=
  (scalarOneOrNone (d.businessInfo.select fun r => r.spotUid == spotUid)).bind fun
    | some existing =>
      let changed := fields.filter fun a => !existing.has a
      if changed.isEmpty then .ok ((), d)
      else ((updateInfoRow be now existing.uid changed).apply d).map fun out => ((), out.2)
    | none => (insertInfoRow be (InfoAttr.setAll fields
        { uid := uid, spotUid := spotUid, createdAt := some now, updatedAt := some now })).apply d

/-- A row of a business info request, with its external id looked up in the tables. -/
def infoRow : RowStep SpotBusinessInfoBulkRow Unit := fun index row d =>
  (resolveExternalId be (externalIdMapping [row.spotExternalId] d) row.spotExternalId).bind
    fun spotUid => writeInfo be now (newUid index) spotUid row.fields d

end Rows

section Laws

variable {ι : Type} [DecidableEq ι] {i : ι} {be : Backend} {now : Timestamp} {newUid : ℕ → String}

theorem isException_refusesSpotRow {s : Spot} {e : Exc} (h : refusesSpotRow be s = some e) :
    e.isException = true := by
  unfold refusesSpotRow at h
  split at h
  · obtain ⟨m, -, rfl⟩ := Option.map_eq_some_iff.1 h
    rfl
  · cases h
    rfl

theorem isException_refusal {f : Rewrite Spot.uid} {rows : List Spot} {e : Exc}
    (h : refusal be f rows = some e) : e.isException = true := by
  induction rows with
  | nil => cases h
  | cons s rows ih =>
    unfold refusal at h
    split at h
    · cases h
      rfl
    · split at h
      · rename_i e' he
        cases h
        exact isException_refusesSpotRow he
      · exact ih h

theorem isException_insertOnConflict {uid : String} {row : SpotBulkRow} {locked : RowKey → Bool}
    {d : Db} {e : Exc} (h : insertOnConflict be now uid row locked d = .error e) :
    e.isException = true := by
  unfold insertOnConflict at h
  split at h
  · cases h
    rfl
  · split at h
    · rename_i e' he
      cases h
      exact isException_refusesSpotRow he
    · split at h
      · unfold updateSpots at h
        dsimp only at h
        split at h
        · rename_i e' he
          cases h
          exact isException_refusal he
        · cases h
      · split at h
        · cases h
          rfl
        · cases h

theorem rowLaw_spots (rows : List SpotBulkRow) :
    RowLaw (fun _ => True) (spotRow be now newUid) (upsertSpotRow be now newUid) rows where
  evaluates {index row d} _ _ := by
    unfold spotRow
    exact (Evaluates.statement _ _).bind fun result d' _ => .ret _ _
  isException {index row d e} h := by
    unfold spotRow at h
    cases hst : (insertOnConflict be now (newUid index) row).apply d with
    | ok out =>
      rw [hst] at h
      cases h
    | error e' =>
      rw [hst] at h
      cases h
      exact isException_insertOnConflict (Stmt.error_of_apply hst)
  keeps _ _ := trivial

/-! ### Business info -/

theorem externalIdMapping_nil (d : Db) : externalIdMapping [] d = [] := by
  refine List.filterMap_eq_nil_iff.2 fun s _ => ?_
  cases s.externalId <;> simp

/-- Looking one id up does not depend on the others that were asked for. -/
theorem mappedUids_mapping {ids : List String} {externalId : String} (h : externalId ∈ ids)
    (d : Db) : mappedUids (externalIdMapping ids d) externalId =
      mappedUids (externalIdMapping [externalId] d) externalId := by
  unfold mappedUids externalIdMapping
  refine congrArg (List.map Prod.snd) ?_
  rw [List.filter_filterMap, List.filter_filterMap]
  refine List.filterMap_congr fun s _ => ?_
  cases s.externalId with
  | none => rfl
  | some e =>
    by_cases he : e = externalId
    · subst he
      simp [h]
    · by_cases hmem : e ∈ ids <;> simp [he, hmem]

theorem resolveExternalId_mapping {ids : List String} {externalId : String}
    (h : externalId ∈ ids) (d : Db) :
    resolveExternalId be (externalIdMapping ids d) externalId =
      resolveExternalId be (externalIdMapping [externalId] d) externalId := by
  unfold resolveExternalId
  rw [mappedUids_mapping h]

theorem evaluates_upsertBusinessInfoRow (uid spotUid : String) (fields : List InfoAttr) (d : Db) :
    Evaluates (upsertBusinessInfoRow be now uid spotUid fields) d
      (writeInfo be now uid spotUid fields d) := by
  refine Evaluates.select (Evaluates.ofExcept fun found hfound => ?_)
  cases found with
  | none => exact Evaluates.statement _ _
  | some existing =>
    -- the row that was read is there to be updated
    have hmem : existing ∈ d.businessInfo.rows := by
      have hsel : existing ∈ d.businessInfo.select fun r => r.spotUid == spotUid := by
        cases hrows : d.businessInfo.select fun r => r.spotUid == spotUid with
        | nil =>
          rw [hrows] at hfound
          cases hfound
        | cons r rs =>
          rw [hrows] at hfound
          cases rs with
          | nil =>
            cases hfound
            exact List.mem_singleton_self _
          | cons r' rs => cases hfound
      exact (Table.mem_select.1 hsel).1
    have hfind : d.businessInfo.find? existing.uid = some existing :=
      Table.find?_eq_some.2 ⟨hmem, rfl⟩
    dsimp only
    split
    · exact Evaluates.ret () _
    · refine (Evaluates.statement _ _).bind fun matched d' hout => ?_
      have hmatched : matched = true := by
        simp only [Stmt.apply, updateInfoRow, hfind] at hout
        split at hout
        · cases hout
        · cases hout
          rfl
      rw [hmatched]
      exact Evaluates.ret () _

/-- A row of business info is refused with an `Exception`, or leaves the spots alone. -/
theorem writeInfo_cases (uid spotUid : String) (fields : List InfoAttr) (d : Db) :
    (∃ e, writeInfo be now uid spotUid fields d = .error e ∧ e.isException = true) ∨
      ∃ d', writeInfo be now uid spotUid fields d = .ok ((), d') ∧ d'.spots = d.spots := by
  unfold writeInfo
  cases hfound : scalarOneOrNone (d.businessInfo.select fun r => r.spotUid == spotUid) with
  | error e =>
    refine .inl ⟨e, rfl, ?_⟩
    unfold scalarOneOrNone at hfound
    split at hfound <;> cases hfound
    rfl
  | ok found =>
    cases found with
    | none =>
      simp only [Except.bind, Stmt.apply, insertInfoRow]
      split
      · exact .inl ⟨_, rfl, rfl⟩
      · split
        · exact .inl ⟨_, rfl, rfl⟩
        · split
          · exact .inl ⟨_, rfl, rfl⟩
          · split
            · exact .inl ⟨_, rfl, rfl⟩
            · exact .inr ⟨_, rfl, rfl⟩
    | some existing =>
      simp only [Except.bind, Stmt.apply, updateInfoRow]
      split
      · exact .inr ⟨_, rfl, rfl⟩
      · split
        · exact .inr ⟨_, rfl, rfl⟩
        · split
          · exact .inl ⟨_, rfl, rfl⟩
          · exact .inr ⟨_, rfl, rfl⟩

theorem isException_resolveExternalId {mapping : List (String × String)} {externalId : String}
    {e : Exc} (h : resolveExternalId be mapping externalId = .error e) : e.isException = true := by
  unfold resolveExternalId at h
  split at h <;> cases h <;> rfl

/-- The mapping made before the rows stays right, since no row changes a spot. -/
theorem rowLaw_businessInfo (rows : List SpotBusinessInfoBulkRow) (d₀ : Db) :
    RowLaw (fun d => d.spots = d₀.spots) (infoRow be now newUid)
      (upsertMappedRow be now newUid
        (externalIdMapping (rows.map SpotBusinessInfoBulkRow.spotExternalId) d₀)) rows where
  evaluates {index row d} hrow hspots := by
    have hid : row.spotExternalId ∈ rows.map SpotBusinessInfoBulkRow.spotExternalId :=
      List.mem_map_of_mem hrow
    have hmapping : externalIdMapping (rows.map SpotBusinessInfoBulkRow.spotExternalId) d₀ =
        externalIdMapping (rows.map SpotBusinessInfoBulkRow.spotExternalId) d := by
      unfold externalIdMapping
      rw [hspots]
    unfold upsertMappedRow infoRow
    rw [hmapping, resolveExternalId_mapping hid]
    exact Evaluates.ofExcept fun spotUid _ => evaluates_upsertBusinessInfoRow _ _ _ _
  isException {index row d e} h := by
    unfold infoRow at h
    cases hspot : resolveExternalId be (externalIdMapping [row.spotExternalId] d)
        row.spotExternalId with
    | error e' =>
      rw [hspot] at h
      cases h
      exact isException_resolveExternalId hspot
    | ok spotUid =>
      rw [hspot] at h
      rcases writeInfo_cases (newUid index) spotUid row.fields d with ⟨e', he', hexc⟩ | ⟨d', hd', -⟩
      · cases he'.symm.trans h
        exact hexc
      · cases hd'.symm.trans h
  keeps {index row d b d'} h hspots := by
    unfold infoRow at h
    cases hspot : resolveExternalId be (externalIdMapping [row.spotExternalId] d)
        row.spotExternalId with
    | error e' =>
      rw [hspot] at h
      cases h
    | ok spotUid =>
      rw [hspot] at h
      rcases writeInfo_cases (newUid index) spotUid row.fields d with ⟨e', he', -⟩ | ⟨d'', hd'', hs⟩
      · cases he'.symm.trans h
      · cases hd''.symm.trans h
        exact hs.trans hspots

/-! ## The handlers -/

theorem lone_invalidateSpots (cfg : Settings) (uids : List String) (db : Db) (ds : List Db)
    (d : Db) : Lone i (Sees i db ds d) (invalidateSpots cfg uids) fun r s =>
      r = .ok () ∧ Sees i db ds d s := by
  refine Lone.bind_ok (lone_bump cfg _ db ds d) ?_
  induction uids with
  | nil => exact Lone.ret () fun _ h => ⟨rfl, h⟩
  | cons uid uids ih => exact Lone.bind_ok (lone_bump cfg _ db ds d) ih

theorem lone_spotsBulkUpsertHandler (cfg : Settings) (request : SpotBulkRequest) (db : Db)
    (ds : List Db) (d : Db) :
    Lone i (Sees i db ds d) (spotsBulkUpsertHandler cfg be now newUid request) fun r s =>
      r = .ok (bulkResult (spotRow be now newUid) request.dryRun request.rows d) ∧
        Sees i db ds (bulkTables (spotRow be now newUid) request.dryRun request.rows d) s :=
  lone_bulkUpsert (rowLaw_spots request.rows)
    (fun _ db ds d => lone_invalidateSpots cfg _ db ds d) db ds request.dryRun trivial

theorem lone_spotBusinessInfoBulkUpsertHandler (request : SpotBusinessInfoBulkRequest) (db : Db)
    (ds : List Db) (d : Db) :
    Lone i (Sees i db ds d) (spotBusinessInfoBulkUpsertHandler be now newUid request) fun r s =>
      r = .ok (bulkResult (infoRow be now newUid) request.dryRun request.rows d) ∧
        Sees i db ds (bulkTables (infoRow be now newUid) request.dryRun request.rows d) s := by
  let ids := request.rows.map SpotBusinessInfoBulkRow.spotExternalId
  have hmapping : Lone i (Sees i db ds d) (buildExternalIdMapping ids) fun r s =>
      r = .ok (externalIdMapping ids d) ∧ Sees i db ds d s := by
    unfold buildExternalIdMapping
    split
    · rename_i hempty
      rw [List.isEmpty_iff.1 hempty, externalIdMapping_nil]
      exact Lone.ret _ fun s hs => ⟨rfl, hs⟩
    · exact Lone.read _
  refine Lone.bind_ok hmapping ?_
  exact lone_bulkUpsert (rowLaw_businessInfo request.rows d)
    (fun _ db ds d => Lone.ret () fun _ h => ⟨rfl, h⟩) db ds request.dryRun rfl

end Laws

/-! ## All or nothing -/

/-- What a bulk request on tables `d` answers and leaves: the failures are the rows that
fail in order, in that order; nothing is kept when a row fails or in a dry run, and all
rows otherwise. -/
structure AllOrNothing {ρ β : Type} (step : RowStep ρ β) (rows : List ρ) (dryRun : Bool) (d : Db)
    (result : BulkResult) (tables : Db) : Prop where
  increasing : (result.errors.map RowError.index).Pairwise (· < ·)
  errors : ∀ index reason, ⟨index, reason⟩ ∈ result.errors ↔
    ∃ e, step.Fails rows d index e ∧ reason = sanitizeExcMessage e
  nothing : result.errors ≠ [] ∨ dryRun = true → tables = d
  all : result.errors = [] → dryRun = false → tables = step.tablesAfter 0 rows d
  succeeded : result.succeeded = if result.errors = [] then rows.length else 0
  failed : result.failed = result.errors.length
  dryRun_eq : result.dryRun = dryRun

theorem allOrNothing_bulk {ρ β : Type} (step : RowStep ρ β) (rows : List ρ) (dryRun : Bool)
    (d : Db) : AllOrNothing step rows dryRun d (bulkResult step dryRun rows d)
      (bulkTables step dryRun rows d) where
  increasing := by
    have hsorted := step.pairwise_failures 0 rows d
    simpa only [bulkResult, List.map_map, List.pairwise_map, Function.comp_apply] using hsorted
  errors index reason := by
    simp only [bulkResult, List.mem_map, Prod.exists, RowError.mk.injEq]
    constructor
    · rintro ⟨k, e, hmem, rfl, rfl⟩
      exact ⟨e, RowStep.mem_failures.1 hmem, rfl⟩
    · rintro ⟨e, hfails, rfl⟩
      exact ⟨index, e, RowStep.mem_failures.2 hfails, rfl, rfl⟩
  nothing h := by
    refine if_neg fun hkeep => ?_
    rcases h with herrors | hdry
    · simp [bulkResult, hkeep.1] at herrors
    · simp [hkeep.2] at hdry
  all herrors hdry := if_pos ⟨List.map_eq_nil_iff.1 herrors, hdry⟩
  succeeded := by simp [bulkResult]
  failed := by simp [bulkResult]
  dryRun_eq := rfl

/-- A session that may run a handler: its transaction is usable, and nobody else holds a lock. -/
structure Uncontended {ι : Type} [DecidableEq ι] (i : ι) (s : State ι) : Prop where
  active : (s.tx i).status = .active
  free : ∀ k, s.heldByOther i k = false

/-- The handler, run on any tables with either flag, answers and leaves what `AllOrNothing`
says and commits nothing; the flag changes the answer in nothing but itself. -/
def BulkLaw {ρ β : Type} (step : RowStep ρ β) (rows : List ρ) (handler : Bool → App BulkResult) :
    Prop :=
  ∀ {ι : Type} [DecidableEq ι] (i : ι) (s : State ι), Uncontended i s →
    ∃ result : Bool → BulkResult, (∀ dryRun, ∃ s',
      runAlone (fun i => exec i) i (handler dryRun) s = some (.ok (result dryRun), s') ∧
      s'.db = s.db ∧ AllOrNothing step rows dryRun (s.view i) (result dryRun) (s'.view i)) ∧
      result true = { result false with dryRun := true }

/-- Both handlers execute their rows in order, each on the tables left by the rows before it
that succeeded, and keep all of them or none; a dry run answers what the real run answers. -/
theorem bulk_all_or_nothing (cfg : Settings) (be : Backend) (now : Timestamp)
    (newUid : ℕ → String) :
    (∀ rows, BulkLaw (spotRow be now newUid) rows fun dryRun =>
      spotsBulkUpsertHandler cfg be now newUid ⟨dryRun, rows⟩) ∧
    ∀ rows, BulkLaw (infoRow be now newUid) rows fun dryRun =>
      spotBusinessInfoBulkUpsertHandler be now newUid ⟨dryRun, rows⟩ := by
  have hlaw : ∀ {ρ β : Type} (step : RowStep ρ β) (rows : List ρ) (handler : Bool → App BulkResult),
      (∀ {ι : Type} [DecidableEq ι] (i : ι) dryRun db ds d, Lone i (Sees i db ds d) (handler dryRun)
        fun r s => r = .ok (bulkResult step dryRun rows d) ∧
          Sees i db ds (bulkTables step dryRun rows d) s) → BulkLaw step rows handler := by
    intro ρ β step rows handler hlone ι _ i s hs
    refine ⟨fun dryRun => bulkResult step dryRun rows (s.view i), fun dryRun => ?_, rfl⟩
    have hsees : Sees i s.db ((s.tx i).saved.map fun w => w.write s.db) (s.view i) s :=
      ⟨⟨rfl, funext hs.free, by rw [hs.active]; decide, rfl⟩, hs.active, rfl⟩
    obtain ⟨r, s', hrun, rfl, hsees'⟩ := hlone i dryRun _ _ _ s hsees
    refine ⟨s', hrun, hsees'.holds.db_eq, ?_⟩
    rw [hsees'.view_eq]
    exact allOrNothing_bulk step rows dryRun (s.view i)
  refine ⟨fun rows => hlaw _ _ _ fun i dryRun db ds d => ?_, fun rows =>
    hlaw _ _ _ fun i dryRun db ds d => ?_⟩
  · exact lone_spotsBulkUpsertHandler cfg ⟨dryRun, rows⟩ db ds d
  · exact lone_spotBusinessInfoBulkUpsertHandler ⟨dryRun, rows⟩ db ds d

/-- A spot with an external id. -/
def Sample.campWithId : Db :=
  { Db.empty with spots := ⟨[{ Sample.spot "a" with externalId := some "e" }], by decide⟩ }

/-- The second of two rows names no spot: it is reported, and the first is not kept. -/
theorem bulk_all_or_nothing_unknown_id :
    ∃ (result : BulkResult) (s' : State Unit),
      runAlone (fun i => exec i) () (spotBusinessInfoBulkUpsertHandler Sample.backend 0
        (fun _ => "n") ⟨false, [⟨"e", [.businessType "camp"]⟩, ⟨"x", []⟩]⟩)
        (World.fresh Sample.campWithId) = some (.ok result, s') ∧
      result.errors = [⟨1, "ValueError: spot_external_id 'x' not found"⟩] ∧
      s'.view () = Sample.campWithId := by
  obtain ⟨result, hrun, -⟩ := (bulk_all_or_nothing Sample.settings Sample.backend 0
    fun _ => "n").2 [⟨"e", [.businessType "camp"]⟩, ⟨"x", []⟩] () (World.fresh Sample.campWithId)
    ⟨rfl, fun _ => rfl⟩
  obtain ⟨s', hs', -, hall⟩ := hrun false
  have hcheck : (runAlone (fun i => exec i) () (spotBusinessInfoBulkUpsertHandler Sample.backend 0
      (fun _ => "n") ⟨false, [⟨"e", [.businessType "camp"]⟩, ⟨"x", []⟩]⟩)
      (World.fresh Sample.campWithId : State Unit)).map (fun out => out.1.toOption.map
        BulkResult.errors) = some (some [⟨1, "ValueError: spot_external_id 'x' not found"⟩]) := by
    decide +kernel
  rw [hs'] at hcheck
  have herrors : (result false).errors = [⟨1, "ValueError: spot_external_id 'x' not found"⟩] :=
    Option.some.inj (Option.some.inj hcheck)
  exact ⟨result false, s', hs', herrors, hall.nothing (.inl (by simp [herrors]))⟩

end Vivac
