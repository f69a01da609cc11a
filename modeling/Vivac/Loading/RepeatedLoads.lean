import Vivac.Loading.Coordinates
import Vivac.Loading.InfoRepeats

/-!
# Loading again, loading in another order

What the worker leaves of the spots when it processes a request of keyed rows: the same when it
processes the request once more (`SpotsRepeatable.again`), the same for the rows in another order
(`SpotsRepeatable.reordered`), and for each key one spot, with the last value supplied for each
column (`SpotsRepeatable.last`). The same for business info (`InfosRepeatable`), where each row
names a spot.
-/

set_option autoImplicit false

namespace Vivac

open Lib App

/-- The worker processes a job of the payload to its end. -/
structure JobRun.Loads (cfg : Settings) (be : Backend) (x : JobRun) (payload : JobPayload)
    (s s' : State Unit) : Prop where
  processed : x.Processed cfg be s s'
  job : ∃ job, s.db.jobs.find? x.uid = some job ∧ job.payload = payload

/-- The last of the rows that `same` selects to supply the column gives it the value. -/
def LastSupplied {ρ C V : Type} (patch : ρ → Patch C V) (same : ρ → Bool) (rows : List ρ) (c : C)
    (v : V) : Prop :=
  ∃ before row after, rows = before ++ row :: after ∧ same row = true ∧ patch row c = some v ∧
    ∀ row' ∈ after, same row' = true → patch row' c = none

theorem LastSupplied.seq {ρ C V : Type} {patch : ρ → Patch C V} {same : ρ → Bool} {rows : List ρ}
    {c : C} {v : V} (h : LastSupplied patch same rows c v) :
    Patch.seq ((rows.filter same).map patch) c = some v := by
  obtain ⟨before, row, after, rfl, hsame, hrow, hafter⟩ := h
  apply Patch.seq_eq_some_iff.2
  refine ⟨(before.filter same).map patch, patch row, (after.filter same).map patch, ?_, hrow, ?_⟩
  · rw [List.filter_append, List.filter_cons_of_pos hsame, List.map_append, List.map_cons]
  · intro p hp
    obtain ⟨row', hrow', rfl⟩ := List.mem_map.1 hp
    obtain ⟨hmem, hsame'⟩ := List.mem_filter.1 hrow'
    exact hafter row' hmem hsame'

theorem isUid_zeros : isUid "0000000000000000000000" = true := by decide +kernel

/-! ## Spots -/

section Spots

variable {cfg : Settings} {be : Backend} {s s₁ s₂ : State Unit} {x x₁ x₂ : JobRun}
  {rows rows' : List SpotBulkRow}

/-- The rows of a request have the same upsert key. -/
def SpotBulkRow.sameKey (row row' : SpotBulkRow) : Bool :=
  row'.source == row.source && row'.externalId == row.externalId

/-- The jobs of the rows, run on a database: once more, in another order, and key by key. -/
structure SpotsRepeatable (cfg : Settings) (be : Backend) (s : State Unit)
    (rows : List SpotBulkRow) :
    Prop where
  again : ∀ (x₁ x₂ : JobRun) (s₁ s₂ : State Unit), x₁.Loads cfg be (.spots ⟨false, rows⟩) s s₁ →
    x₂.Loads cfg be (.spots ⟨false, rows⟩) s₁ s₂ → NewUids x₁.newUid rows.length s.db →
      NewUids x₂.newUid rows.length s₁.db → s₂.db.spots = s₁.db.spots
  reordered : ∀ (x₁ x₂ : JobRun) (rows' : List SpotBulkRow) (s₁ s₂ : State Unit),
    x₁.Loads cfg be (.spots ⟨false, rows⟩) s s₁ → x₂.Loads cfg be (.spots ⟨false, rows'⟩) s s₂ →
      rows.Perm rows' → rows.Pairwise Apart → x₁.now = x₂.now → NewUids x₁.newUid rows.length s.db →
        NewUids x₂.newUid rows'.length s.db →
          (s₁.db.spots.rows.map (forgetNew s.db)).Perm (s₂.db.spots.rows.map (forgetNew s.db))
  last : ∀ (x : JobRun) (s₁ : State Unit), x.Loads cfg be (.spots ⟨false, rows⟩) s s₁ →
    SaysApplied x.uid s₁.db → ∀ row ∈ rows, ∃ t ∈ s₁.db.spots.rows,
      (∀ t' ∈ s₁.db.spots.rows, row.matchesSpot t' = true ↔ t' = t) ∧
        ∀ c v, LastSupplied SpotBulkRow.patch row.sameKey rows c v → t.get c = v

/-- The spots that a job leaves. -/
theorem JobRun.Loads.spots_eq (h : x.Loads cfg be (.spots ⟨false, rows⟩) s s₁) (hs : Between s) :
    s₁.db.spots =
      if (spotRow be x.now x.newUid).failures 0 rows s.db = [] then
        ((spotRow be x.now x.newUid).tablesAfter 0 rows s.db).spots
      else s.db.spots := by
  obtain ⟨job, hjob, hpayload⟩ := h.job
  have hrows := h.processed.same_rows hs hjob
  rw [hpayload] at hrows
  rw [hrows.spots, payloadTables, bulkTables]
  simp only [and_true]
  split <;> rfl

/-- A job run once more leaves the spots as they are. -/
theorem spots_again (hbe : be.IgnoresStamps) (hs : Between s) (hunique : UniqueSources s.db)
    (hkeyed : ∀ row ∈ rows, row.keyed = true) (h₁ : x₁.Loads cfg be (.spots ⟨false, rows⟩) s s₁)
    (h₂ : x₂.Loads cfg be (.spots ⟨false, rows⟩) s₁ s₂) (hnew₁ : NewUids x₁.newUid rows.length s.db)
    (hnew₂ : NewUids x₂.newUid rows.length s₁.db) : s₂.db.spots = s₁.db.spots := by
  have hspots₁ := h₁.spots_eq hs
  have hspots₂ := h₂.spots_eq h₁.processed.between
  by_cases hagain : (spotRow be x₂.now x₂.newUid).failures 0 rows s₁.db = []
  · rw [hspots₂, if_pos hagain]
    by_cases hfirst : (spotRow be x₁.now x₁.newUid).failures 0 rows s.db = []
    · rw [if_pos hfirst] at hspots₁
      exact tablesAfter_again hunique hkeyed hfirst hspots₁ hagain
    · -- rows that were refused are refused again
      rw [if_neg hfirst] at hspots₁
      exact absurd
        (failures_eq_nil_of_again hbe hspots₁ hunique hnew₁ hnew₂.toUidsFor hkeyed hagain)
        hfirst
  · rw [hspots₂, if_neg hagain]

/-- Jobs of the same rows in another order leave the same spots. -/
theorem spots_reordered (hbe : be.IgnoresStamps) (hs : Between s) (hunique : UniqueSources s.db)
    (hkeyed : ∀ row ∈ rows, row.keyed = true) (h₁ : x₁.Loads cfg be (.spots ⟨false, rows⟩) s s₁)
    (h₂ : x₂.Loads cfg be (.spots ⟨false, rows'⟩) s s₂) (hperm : rows.Perm rows')
    (hrows : rows.Pairwise Apart) (hnow : x₁.now = x₂.now)
    (hnew₁ : NewUids x₁.newUid rows.length s.db)
    (hnew₂ : NewUids x₂.newUid rows'.length s.db) :
    (s₁.db.spots.rows.map (forgetNew s.db)).Perm (s₂.db.spots.rows.map (forgetNew s.db)) := by
  have hkeyed' : ∀ row ∈ rows', row.keyed = true := fun row hr => hkeyed row (hperm.mem_iff.2 hr)
  have hrows' : rows'.Pairwise Apart := hperm.pairwise hrows Apart.symm
  -- both go through, or neither
  have hboth : (spotRow be x₁.now x₁.newUid).failures 0 rows s.db = [] ↔
      (spotRow be x₂.now x₂.newUid).failures 0 rows' s.db = [] := by
    rw [failures_eq_nil_iff_takes 0 hbe hunique hnew₁ hrows hkeyed isUid_zeros,
      failures_eq_nil_iff_takes 0 hbe hunique hnew₂ hrows' hkeyed' isUid_zeros]
    exact forall_congr' fun row => imp_congr_left hperm.mem_iff
  rw [h₁.spots_eq hs, h₂.spots_eq hs]
  by_cases hgo : (spotRow be x₁.now x₁.newUid).failures 0 rows s.db = []
  · have hgo' := hboth.1 hgo
    rw [if_pos hgo, if_pos hgo']
    rw [← hnow] at hgo' ⊢
    exact perm_tablesAfter hunique hnew₁ hnew₂ hrows hkeyed hperm hgo hgo'
  · rw [if_neg hgo, if_neg fun h => hgo (hboth.2 h)]

/-- A job that goes through leaves one spot for each key. -/
theorem spots_last (hs : Between s) (hunique : UniqueSources s.db)
    (hkeyed : ∀ row ∈ rows, row.keyed = true) (h : x.Loads cfg be (.spots ⟨false, rows⟩) s s₁)
    (happlied : SaysApplied x.uid s₁.db) {row : SpotBulkRow} (hrow : row ∈ rows) :
    ∃ t ∈ s₁.db.spots.rows, (∀ t' ∈ s₁.db.spots.rows, row.matchesSpot t' = true ↔ t' = t) ∧
      ∀ c v, LastSupplied SpotBulkRow.patch row.sameKey rows c v → t.get c = v := by
  obtain ⟨job, hjob, hpayload⟩ := h.job
  have hgo := ((h.processed.spots_kept_iff hs hjob hpayload).1 happlied).1
  rw [h.spots_eq hs, if_pos hgo]
  obtain ⟨t, ht, honly, hvalues⟩ := exists_spot_tablesAfter hunique hgo hrow (hkeyed row hrow)
  exact ⟨t, ht, honly, fun c v hlast => hvalues c v hlast.seq⟩

end Spots

/-! ## Business info -/

section Infos

variable {cfg : Settings} {be : Backend} {s s₁ s₂ : State Unit} {x x₁ x₂ : JobRun}
  {rows rows' : List SpotBusinessInfoBulkRow}

/-- The rows of a request have the same external id. -/
def SpotBusinessInfoBulkRow.sameKey (row row' : SpotBusinessInfoBulkRow) : Bool :=
  row'.spotExternalId == row.spotExternalId

/-- The jobs of the rows, run on a database: once more, in another order, and spot by spot. -/
structure InfosRepeatable (cfg : Settings) (be : Backend) (s : State Unit)
    (rows : List SpotBusinessInfoBulkRow) : Prop where
  again : ∀ (x₁ x₂ : JobRun) (s₁ s₂ : State Unit),
    x₁.Loads cfg be (.businessInfo ⟨false, rows⟩) s s₁ →
    x₂.Loads cfg be (.businessInfo ⟨false, rows⟩) s₁ s₂ → NewInfoUids x₁.newUid rows.length s.db →
      NewInfoUids x₂.newUid rows.length s₁.db →
        s₂.db.businessInfo.rows.map SpotBusinessInfo.get =
          s₁.db.businessInfo.rows.map SpotBusinessInfo.get
  reordered : ∀ (x₁ x₂ : JobRun) (rows' : List SpotBusinessInfoBulkRow) (s₁ s₂ : State Unit),
    x₁.Loads cfg be (.businessInfo ⟨false, rows⟩) s s₁ →
      x₂.Loads cfg be (.businessInfo ⟨false, rows'⟩) s s₂ → rows.Perm rows' →
        rows.Pairwise (fun row row' => row.spotExternalId ≠ row'.spotExternalId) → x₁.now = x₂.now →
          NewInfoUids x₁.newUid rows.length s.db → NewInfoUids x₂.newUid rows'.length s.db →
            (s₁.db.businessInfo.rows.map (forgetNewInfo s.db)).Perm
              (s₂.db.businessInfo.rows.map (forgetNewInfo s.db))
  last : ∀ (x : JobRun) (s₁ : State Unit), x.Loads cfg be (.businessInfo ⟨false, rows⟩) s s₁ →
    SaysApplied x.uid s₁.db → ∀ row ∈ rows, ∃ r ∈ s₁.db.businessInfo.rows,
      (∀ r' ∈ s₁.db.businessInfo.rows, r'.spotUid = row.spotUid s.db ↔ r' = r) ∧
        ∀ c v, LastSupplied SpotBusinessInfoBulkRow.patch row.sameKey rows c v → r.get c = v

/-- The tables that a job leaves. -/
theorem JobRun.Loads.infos_eq (h : x.Loads cfg be (.businessInfo ⟨false, rows⟩) s s₁)
    (hs : Between s) :
    SameRows s₁.db (if (infoRow be x.now x.newUid).failures 0 rows s.db = [] then
        (infoRow be x.now x.newUid).tablesAfter 0 rows s.db
      else s.db) := by
  obtain ⟨job, hjob, hpayload⟩ := h.job
  have hrows := h.processed.same_rows hs hjob
  rw [hpayload, payloadTables, bulkTables] at hrows
  simpa only [and_true] using hrows

/-- A job run once more leaves the business info as it is, but for the time of its last update. -/
theorem infos_again (hbe : be.IgnoresInfoStamps) (hs : Between s) (hunique : UniqueInfos s.db)
    (hnames : ∀ row ∈ rows, row.NamesOne s.db) (honce : ∀ row ∈ rows, row.Once)
    (h₁ : x₁.Loads cfg be (.businessInfo ⟨false, rows⟩) s s₁)
    (h₂ : x₂.Loads cfg be (.businessInfo ⟨false, rows⟩) s₁ s₂)
    (hnew₁ : NewInfoUids x₁.newUid rows.length s.db)
    (hnew₂ : NewInfoUids x₂.newUid rows.length s₁.db) :
    s₂.db.businessInfo.rows.map SpotBusinessInfo.get =
      s₁.db.businessInfo.rows.map SpotBusinessInfo.get := by
  have hrows₁ := h₁.infos_eq hs
  have hrows₂ := h₂.infos_eq h₁.processed.between
  by_cases hagain : (infoRow be x₂.now x₂.newUid).failures 0 rows s₁.db = []
  · rw [if_pos hagain] at hrows₂
    rw [hrows₂.businessInfo]
    by_cases hfirst : (infoRow be x₁.now x₁.newUid).failures 0 rows s.db = []
    · rw [if_pos hfirst] at hrows₁
      have hspots := (get_infosAfter hunique hnames honce hfirst).2.2
      exact infosAfter_again hunique hnames honce hfirst
        (hrows₁.spots.trans hspots) hrows₁.businessInfo
        hagain
    · -- rows that were refused are refused again
      rw [if_neg hfirst] at hrows₁
      exact absurd (infos_go_through_of_again hbe hrows₁.spots hrows₁.businessInfo hunique hnew₁
        hnew₂.toUidsFor hnames honce hagain) hfirst
  · rw [if_neg hagain] at hrows₂
    rw [hrows₂.businessInfo]

/-- Jobs of the same rows in another order leave the same business info. -/
theorem infos_reordered (hbe : be.IgnoresInfoStamps) (hs : Between s) (hunique : UniqueInfos s.db)
    (hnames : ∀ row ∈ rows, row.NamesOne s.db) (honce : ∀ row ∈ rows, row.Once)
    (h₁ : x₁.Loads cfg be (.businessInfo ⟨false, rows⟩) s s₁)
    (h₂ : x₂.Loads cfg be (.businessInfo ⟨false, rows'⟩) s s₂) (hperm : rows.Perm rows')
    (hrows : rows.Pairwise fun row row' => row.spotExternalId ≠ row'.spotExternalId)
    (hnow : x₁.now = x₂.now) (hnew₁ : NewInfoUids x₁.newUid rows.length s.db)
    (hnew₂ : NewInfoUids x₂.newUid rows'.length s.db) :
    (s₁.db.businessInfo.rows.map (forgetNewInfo s.db)).Perm
      (s₂.db.businessInfo.rows.map (forgetNewInfo s.db)) := by
  have hnames' : ∀ row ∈ rows', row.NamesOne s.db := fun row hr => hnames row (hperm.mem_iff.2 hr)
  have honce' : ∀ row ∈ rows', row.Once := fun row hr => honce row (hperm.mem_iff.2 hr)
  have hapart : rows.Pairwise fun row row' => row.spotUid s.db ≠ row'.spotUid s.db :=
    hrows.imp_of_mem fun hr hr' hne => spotUid_ne (hnames _ hr) (hnames _ hr') hne
  have hapart' := hperm.pairwise hapart fun h => h.symm
  have hboth : (infoRow be x₁.now x₁.newUid).failures 0 rows s.db = [] ↔
      (infoRow be x₂.now x₂.newUid).failures 0 rows' s.db = [] := by
    rw [infos_go_through_iff 0 hbe hunique hnew₁ hnames honce hapart isUid_zeros,
      infos_go_through_iff 0 hbe hunique hnew₂ hnames' honce' hapart' isUid_zeros]
    exact forall_congr' fun row => imp_congr_left hperm.mem_iff
  rw [(h₁.infos_eq hs).businessInfo, (h₂.infos_eq hs).businessInfo]
  by_cases hgo : (infoRow be x₁.now x₁.newUid).failures 0 rows s.db = []
  · have hgo' := hboth.1 hgo
    rw [if_pos hgo, if_pos hgo']
    rw [← hnow] at hgo' ⊢
    exact perm_infosAfter hunique hnew₁ hnew₂ hnames honce hapart hperm hgo hgo'
  · rw [if_neg hgo, if_neg fun h => hgo (hboth.2 h)]

/-- A job that goes through leaves one row of business info for each spot named. -/
theorem infos_last (hs : Between s) (hunique : UniqueInfos s.db)
    (hnames : ∀ row ∈ rows, row.NamesOne s.db) (honce : ∀ row ∈ rows, row.Once)
    (h : x.Loads cfg be (.businessInfo ⟨false, rows⟩) s s₁) (happlied : SaysApplied x.uid s₁.db)
    {row : SpotBusinessInfoBulkRow} (hrow : row ∈ rows) :
    ∃ r ∈ s₁.db.businessInfo.rows, (∀ r' ∈ s₁.db.businessInfo.rows,
        r'.spotUid = row.spotUid s.db ↔ r' = r) ∧
      ∀ c v, LastSupplied SpotBusinessInfoBulkRow.patch row.sameKey rows c v → r.get c = v := by
  obtain ⟨job, hjob, hpayload⟩ := h.job
  have hgo := ((h.processed.info_kept_iff hs hjob hpayload).1 happlied).1
  have hrows := h.infos_eq hs
  rw [if_pos hgo] at hrows
  rw [hrows.businessInfo]
  obtain ⟨r, hr, honly, hvalues⟩ := exists_info_infosAfter hunique hnames honce hgo hrow
  refine ⟨r, hr, honly, fun c v hlast => hvalues c v ?_⟩
  have hseq := hlast.seq
  have hfilter : rows.filter row.sameKey =
      rows.filter fun row' => row'.spotExternalId = row.spotExternalId := by
    apply List.filter_congr
    intro row' _
    rfl
  rwa [hfilter] at hseq

end Infos

/-! ## Both -/

/-- Loading keyed rows is idempotent and does not depend on their order. -/
theorem keyed_loads_repeatable (cfg : Settings) (be : Backend) (hspots : be.IgnoresStamps)
    (hinfos : be.IgnoresInfoStamps) {s : State Unit} (hs : Between s)
    (hsources : UniqueSources s.db)
    (hunique : UniqueInfos s.db) :
    (∀ rows : List SpotBulkRow, (∀ row ∈ rows, row.keyed = true) → SpotsRepeatable cfg be s rows) ∧
      ∀ rows : List SpotBusinessInfoBulkRow, (∀ row ∈ rows, row.NamesOne s.db ∧ row.Once) →
        InfosRepeatable cfg be s rows := by
  constructor
  · intro rows hkeyed
    constructor
    · intro x₁ x₂ s₁ s₂ h₁ h₂ hnew₁ hnew₂
      exact spots_again hspots hs hsources hkeyed h₁ h₂ hnew₁ hnew₂
    · intro x₁ x₂ rows' s₁ s₂ h₁ h₂ hperm hrows hnow hnew₁ hnew₂
      exact spots_reordered hspots hs hsources hkeyed h₁ h₂ hperm hrows hnow hnew₁ hnew₂
    · intro x s₁ h happlied row hrow
      exact spots_last hs hsources hkeyed h happlied hrow
  · intro rows hrows
    have hnames : ∀ row ∈ rows, row.NamesOne s.db := fun row hr => (hrows row hr).1
    have honce : ∀ row ∈ rows, row.Once := fun row hr => (hrows row hr).2
    constructor
    · intro x₁ x₂ s₁ s₂ h₁ h₂ hnew₁ hnew₂
      exact infos_again hinfos hs hunique hnames honce h₁ h₂ hnew₁ hnew₂
    · intro x₁ x₂ rows' s₁ s₂ h₁ h₂ hperm hapart hnow hnew₁ hnew₂
      exact infos_reordered hinfos hs hunique hnames honce h₁ h₂ hperm hapart hnow hnew₁ hnew₂
    · intro x s₁ h happlied row hrow
      exact infos_last hs hunique hnames honce h happlied hrow

namespace Sample

/-- The processing of the sample's job, with a well-formed uid for a new row. -/
def freshRun : JobRun := ⟨0, fun _ => "0000000000000000000000", "j"⟩

/-- The state after it. -/
def afterRun (s : State Unit) : Option (State Unit) :=
  (runAlone (fun i => exec i) ()
    (withSession (processClaimed settings backend freshRun.now freshRun.newUid
    freshRun.uid)) s).map Prod.snd

theorem processed_of_afterRun {s s' : State Unit} (h : afterRun s = some s') :
    freshRun.Processed settings backend s s' := by
  obtain ⟨⟨r, s'⟩, hrun, rfl⟩ := Option.map_eq_some_iff.1 h
  exact ⟨r, hrun⟩

theorem newUids_freshRun {d : Db} (h : d.spots.rows.map Spot.uid = ["s"]) :
    NewUids freshRun.newUid 1 d where
  injective _ hi _ hj _ := by omega
  wellFormed _ _ := isUid_zeros
  fresh i _ := by
    apply Table.find?_eq_none.2
    intro s hs heq
    have hmem : s.uid ∈ d.spots.rows.map Spot.uid := List.mem_map_of_mem hs
    rw [h, List.mem_singleton, heq] at hmem
    exact absurd hmem (by decide : ¬"0000000000000000000000" = "s")

theorem uniqueInfos_movingTables (request : SpotBulkRequest) :
    UniqueInfos (movingTables request) := by
  intro r hr
  exact absurd hr List.not_mem_nil

end Sample

/-- The job that moves a spot to Busan, twice. -/
theorem keyed_loads_repeatable_busan : ∃ s₁ s₂ : State Unit,
    Sample.afterRun (World.fresh (Sample.movingTables Sample.toBusan)) = some s₁ ∧
      Sample.afterRun s₁ = some s₂ ∧ Sample.coordinates s₁ = some (some 35, some 129) ∧
      s₂.db.spots = s₁.db.spots := by
  have hrun : ((Sample.afterRun (World.fresh (Sample.movingTables Sample.toBusan))).bind fun s₁ =>
      (Sample.afterRun s₁).map fun _ => (Sample.coordinates s₁, s₁.db.spots.rows.map Spot.uid)) =
        some (some (some 35, some 129), ["s"]) := by
    decide +kernel
  obtain ⟨s₁, hs₁, hrun⟩ := Option.bind_eq_some_iff.1 hrun
  obtain ⟨s₂, hs₂, hpair⟩ := Option.map_eq_some_iff.1 hrun
  obtain ⟨hcoordinates, huids⟩ := Prod.mk.inj hpair
  refine ⟨s₁, s₂, hs₁, hs₂, hcoordinates, ?_⟩
  have hstart : Between (World.fresh (Sample.movingTables Sample.toBusan) : State Unit) := rfl
  have hprocessed := Sample.processed_of_afterRun hs₁
  have hprocessed' := Sample.processed_of_afterRun hs₂
  have hjob : (Sample.movingTables Sample.toBusan).jobs.find? Sample.freshRun.uid =
      some { Sample.runningJob with payload := .spots Sample.toBusan } := rfl
  have hnew : NewUids Sample.freshRun.newUid Sample.toBusan.rows.length
      (Sample.movingTables Sample.toBusan) := Sample.newUids_freshRun rfl
  have hnew' : NewUids Sample.freshRun.newUid Sample.toBusan.rows.length s₁.db :=
    Sample.newUids_freshRun huids
  have hkeyed : ∀ row ∈ Sample.toBusan.rows, row.keyed = true := by
    intro row hrow
    rw [List.mem_singleton.1 hrow]
    rfl
  have hloads := (keyed_loads_repeatable Sample.settings Sample.backend (fun _ _ _ => rfl)
    (fun _ _ _ => rfl) hstart (Sample.uniqueSources_movingTables _)
    (Sample.uniqueInfos_movingTables _)).1 Sample.toBusan.rows hkeyed
  exact hloads.again Sample.freshRun Sample.freshRun s₁ s₂ ⟨hprocessed, _, hjob, rfl⟩
    ⟨hprocessed', hprocessed.payload_eq hstart hjob⟩ hnew hnew'

end Vivac
