import Vivac.Jobs.AllOrNothing
import Vivac.Lib.KeyedUpserts
import Vivac.Models.Columns
import Vivac.Pipeline.SpotRows

/-!
# What rows of spots merge into

Each row of a spots request upserts one entry (`SpotBulkRow.entry`): the columns it supplies, for
the spot that has its source and external id, or for a new spot. A row without one of the two is
always a new spot; its identity is the uid it gets.
-/

set_option autoImplicit false

namespace Vivac

open Lib

/-! ## Identities -/

/-- What an upsert knows a spot by: its source and external id, or its uid when one is null. -/
inductive SpotIdentity where
  | source (source externalId : SqlValue)
  | uid (uid : SqlValue)
  deriving DecidableEq

/-- The identity that the columns show. -/
def identityOf (row : SpotColumn → SqlValue) : SpotIdentity :=
  if row .source = .null ∨ row .externalId = .null then .uid (row .uid)
  else .source (row .source) (row .externalId)

/-- `uq_spots_source_external_id`; a null is equal to nothing. -/
def UniqueSources (d : Db) : Prop :=
  ∀ s ∈ d.spots.rows, ∀ t ∈ d.spots.rows, s.source.isSome → s.externalId.isSome →
    s.source = t.source → s.externalId = t.externalId → s = t

theorem UniqueSources.congr {d d' : Db} (h : d'.spots = d.spots) (hd : UniqueSources d) :
    UniqueSources d' := by
  intro s hs t ht
  rw [h] at hs ht
  exact hd s hs t ht

theorem nullable_text_eq_null {v : Option String} : SqlValue.nullable .text v = .null ↔
    v = none := by
  cases v <;> simp [SqlValue.nullable]

theorem nullable_timestamp_injective :
    Function.Injective (SqlValue.nullable (α := Timestamp) SqlValue.timestamp) :=
  SqlValue.nullable_injective (fun _ _ h => by cases h; rfl) nofun

theorem nullable_text_injective : Function.Injective (SqlValue.nullable .text) :=
  SqlValue.nullable_injective (fun _ _ h => by cases h; rfl) nofun

theorem identityOf_source {s : Spot} (h : s.source.isSome ∧ s.externalId.isSome) :
    identityOf s.get = .source (.nullable .text s.source) (.nullable .text s.externalId) := by
  apply if_neg
  simp only [Spot.get, nullable_text_eq_null, ← Option.not_isSome_iff_eq_none]
  simp [h.1, h.2]

theorem identityOf_uid {s : Spot} (h : ¬(s.source.isSome ∧ s.externalId.isSome)) :
    identityOf s.get = .uid (.text s.uid) := by
  apply if_pos
  simp only [Spot.get, nullable_text_eq_null, ← Option.not_isSome_iff_eq_none]
  exact not_and_or.1 h

/-- Identities are unique: uids by the primary key, sources by the constraint. -/
theorem uniqueKeys_iff {d : Db} :
    UniqueKeys identityOf (d.spots.rows.map Spot.get) ↔ UniqueSources d := by
  unfold UniqueKeys
  rw [List.map_map]
  constructor
  · intro h s hs t ht hsource hexternal heq heq'
    apply List.inj_on_of_nodup_map h hs ht
    show identityOf s.get = identityOf t.get
    rw [identityOf_source ⟨hsource, hexternal⟩,
      identityOf_source ⟨heq ▸ hsource, heq' ▸ hexternal⟩, heq, heq']
  · intro h
    apply List.Nodup.map_on _ d.spots.nodup_rows
    intro s hs t ht heq
    simp only [Function.comp_apply] at heq
    by_cases hsome : s.source.isSome ∧ s.externalId.isSome
    · rw [identityOf_source hsome] at heq
      by_cases hsome' : t.source.isSome ∧ t.externalId.isSome
      · rw [identityOf_source hsome'] at heq
        have hpair := SpotIdentity.source.inj heq
        exact h s hs t ht hsome.1 hsome.2 (nullable_text_injective hpair.1)
          (nullable_text_injective hpair.2)
      · rw [identityOf_uid hsome'] at heq
        cases heq
    · rw [identityOf_uid hsome] at heq
      by_cases hsome' : t.source.isSome ∧ t.externalId.isSome
      · rw [identityOf_source hsome'] at heq
        cases heq
      · rw [identityOf_uid hsome'] at heq
        exact d.spots.eq_of_key_eq hs ht (SqlValue.text.inj (SpotIdentity.uid.inj heq))

/-! ## The patch of a row -/

namespace SpotBulkRow

/-- Both parts of the upsert key are there. -/
def keyed (row : SpotBulkRow) : Bool := row.source.isSome && row.externalId.isSome

/-- The rows with the row's key. -/
def withSameKey (row : SpotBulkRow) (rows : List SpotBulkRow) : List SpotBulkRow :=
  rows.filter fun r => r.source == row.source && r.externalId == row.externalId

end SpotBulkRow

namespace SpotBulkRow

variable (row : SpotBulkRow)

/-- The rating columns, which every row sets. -/
def ratings : Patch SpotColumn SqlValue :=
  .seq [.single .ratingAvg (.number row.ratingAvg), .single .reviewCount (.integer row.reviewCount)]

/-- The columns the row sets. -/
def patch : Patch SpotColumn SqlValue := (SpotAttr.patch row.values).andThen row.ratings

/-- The spot with the row's values. -/
def merge (s : Spot) : Spot := (row.setValues.apply s).getD s

theorem isNull_of_mem_values {a : SpotAttr} (h : a ∈ row.values) : a.isNull = false := by
  rcases List.mem_cons.1 h with rfl | hfield
  · rfl
  · simpa using (List.mem_filter.1 hfield).2

theorem setValues_apply (s : Spot) : row.setValues.apply s = some (row.merge s) := by
  obtain ⟨t, ht⟩ := SpotAttr.exists_setAll (fun a ha => row.isNull_of_mem_values ha) s
  simp [merge, setValues, ht]

theorem get_merge (s : Spot) : (row.merge s).get = row.patch.apply s.get := by
  obtain ⟨t, ht⟩ := SpotAttr.exists_setAll (fun a ha => row.isNull_of_mem_values ha) s
  have hmerge :
      row.merge s = { t with ratingAvg := row.ratingAvg, reviewCount := row.reviewCount } := by
    simp [merge, setValues, ht]
  rw [hmerge, patch, Patch.apply_andThen, ← SpotAttr.get_setAll ht, ratings, Patch.apply_seq_cons,
    Patch.apply_seq_cons, Patch.apply_single, Patch.apply_single, Patch.apply_seq_nil]
  funext c
  cases c <;> rfl

/-- The row sets no column that is neither editable nor a rating. -/
theorem patch_eq_none {c : SpotColumn} (hrating : c ≠ .ratingAvg ∧ c ≠ .reviewCount)
    (htitle : c ≠ .title) (hfields : ∀ a : SpotAttr, a.isBulkField = true → a.key ≠ c) :
    row.patch c = none := by
  have hvalues : SpotAttr.patch row.values c = none := by
    apply Patch.seq_eq_none_iff.2
    intro p hp
    obtain ⟨a, ha, rfl⟩ := List.mem_map.1 hp
    apply if_neg
    rcases List.mem_cons.1 ha with rfl | hfield
    · exact htitle
    · have hbulk := List.all_eq_true.1 row.editable a (List.mem_filter.1 hfield).1
      exact Ne.symm (hfields a hbulk)
  have hratings : row.ratings c = none := by
    apply Patch.seq_eq_none_iff.2
    intro p hp
    rcases List.mem_pair.1 hp with rfl | rfl
    · exact if_neg hrating.1
    · exact if_neg hrating.2
  rw [patch, Patch.andThen, hratings, Option.none_or, hvalues]

/-- The columns of a spot that no row sets. -/
def Fixed (c : SpotColumn) : Prop :=
  c = .uid ∨ c = .source ∨ c = .externalId ∨ c = .createdAt ∨ c = .updatedAt ∨ c = .deletedAt ∨
    c = .assignedToUid ∨ c = .lastVerifiedAt

theorem patch_of_fixed {c : SpotColumn} (h : Fixed c) : row.patch c = none := by
  have hkey : ∀ a : SpotAttr, a.isBulkField = true → ¬Fixed a.key := by
    intro a ha
    cases a <;> simp [Fixed, SpotAttr.key, SpotAttr.isBulkField] at ha ⊢
  have hrating : ¬Fixed .ratingAvg ∧ ¬Fixed .reviewCount ∧ ¬Fixed .title := by simp [Fixed]
  apply row.patch_eq_none
  · exact ⟨fun hc => hrating.1 (hc ▸ h), fun hc => hrating.2.1 (hc ▸ h)⟩
  · exact fun hc => hrating.2.2 (hc ▸ h)
  · exact fun a ha hc => hkey a ha (hc ▸ h)

/-- The entry that the row upserts, with the uid of a new spot. -/
def entry (now : Timestamp) (uid : String) : Entry SpotIdentity SpotColumn SqlValue where
  key := identityOf (row.blank now uid).get
  patch := row.patch
  base := (row.blank now uid).get

theorem lawful_entry (now : Timestamp) (uid : String) : (row.entry now uid).Lawful identityOf where
  keeps s := by
    have hkeep : ∀ {c : SpotColumn}, Fixed c → (row.entry now uid).patch.apply s c = s c :=
      fun h => Patch.apply_of_none (row.patch_of_fixed h)
    unfold identityOf
    rw [hkeep (.inl rfl), hkeep (.inr (.inl rfl)), hkeep (.inr (.inr (.inl rfl)))]
  key_base := rfl

end SpotBulkRow

/-! ## One row -/

section Step

variable {be : Backend} {now : Timestamp} {newUid : ℕ → String}

/-- A row with a key conflicts with the spot that has it. -/
theorem conflicting_eq_some {row : SpotBulkRow} {d : Db} {s : Spot}
    (h : row.conflicting d = some s) : s ∈ d.spots.rows ∧ s.source = row.source ∧
      s.externalId = row.externalId ∧ row.source.isSome ∧ row.externalId.isSome := by
  unfold SpotBulkRow.conflicting at h
  split at h
  · rename_i source externalId hsource hexternal
    have hmem := List.mem_of_find?_eq_some h
    have hfound := List.find?_some h
    simp only [Bool.and_eq_true, beq_iff_eq] at hfound
    rw [hsource, hexternal]
    exact ⟨hmem, hfound.1, hfound.2, rfl, rfl⟩
  · cases h

variable (now) in
/-- A row that conflicts with nothing has an identity of its own. -/
theorem conflicting_eq_none {row : SpotBulkRow} {d : Db} {uid : String}
    (h : row.conflicting d = none) (hfresh : d.spots.find? uid = none) :
    (row.entry now uid).key ∉ (d.spots.rows.map Spot.get).map identityOf := by
  intro hmem
  obtain ⟨v, hv, hkey⟩ := List.mem_map.1 hmem
  obtain ⟨s, hs, rfl⟩ := List.mem_map.1 hv
  have hentry : (row.entry now uid).key = identityOf (row.blank now uid).get := rfl
  rw [hentry] at hkey
  by_cases hrow : (row.blank now uid).source.isSome ∧ (row.blank now uid).externalId.isSome
  · rw [identityOf_source hrow] at hkey
    by_cases hspot : s.source.isSome ∧ s.externalId.isSome
    · rw [identityOf_source hspot] at hkey
      have hpair := SpotIdentity.source.inj hkey
      have hsource : s.source = row.source := nullable_text_injective hpair.1
      have hexternal : s.externalId = row.externalId := nullable_text_injective hpair.2
      obtain ⟨source, hrs⟩ := Option.isSome_iff_exists.1 hrow.1
      obtain ⟨externalId, hre⟩ := Option.isSome_iff_exists.1 hrow.2
      have hrs' : row.source = some source := hrs
      have hre' : row.externalId = some externalId := hre
      rw [SpotBulkRow.conflicting, hrs', hre'] at h
      have hnot := List.find?_eq_none.1 h s hs
      simp [hsource, hexternal, hrs', hre'] at hnot
    · rw [identityOf_uid hspot] at hkey
      cases hkey
  · rw [identityOf_uid hrow] at hkey
    by_cases hspot : s.source.isSome ∧ s.externalId.isSome
    · rw [identityOf_source hspot] at hkey
      cases hkey
    · rw [identityOf_uid hspot] at hkey
      have huid : s.uid = uid := SqlValue.text.inj (SpotIdentity.uid.inj hkey)
      exact Table.find?_eq_none.1 hfresh s hs huid

/-- A row that goes through upserts its entry. -/
theorem get_spotRow {index : ℕ} {row : SpotBulkRow} {d d' : Db} {uid? : Option String}
    (hunique : UniqueSources d) (h : spotRow be now newUid index row d = .ok (uid?, d')) :
    d'.spots.rows.map Spot.get =
      upsert identityOf (row.entry now (newUid index)) (d.spots.rows.map Spot.get) := by
  unfold spotRow at h
  cases hst : (insertOnConflict be now (newUid index) row).apply d with
  | error e =>
      rw [hst] at h
      cases h
  | ok out =>
      rw [hst] at h
      cases h
      obtain ⟨eff, heff, -, hwrite⟩ := Stmt.ok_of_apply (show _ = Except.ok (out.1, out.2) from hst)
      rw [← hwrite]
      simp only [insertOnConflict, row.setValues_apply] at heff
      split at heff
      · cases heff
      · split at heff
        · rename_i s hconflict
          obtain ⟨hmem, hsource, hexternal, hsome, hsome'⟩ := conflicting_eq_some hconflict
          rw [updateSpots_eq_ok heff]
          -- the rows with the spot's uid are those with the row's identity
          have hrow : identityOf (row.blank now (newUid index)).get = identityOf s.get := by
            rw [identityOf_source ⟨hsome, hsome'⟩,
              identityOf_source (s := s) ⟨hsource ▸ hsome, hexternal ▸ hsome'⟩, hsource, hexternal]
            rfl
          have hsame : ∀ r ∈ d.spots.rows,
              (identityOf r.get = (row.entry now (newUid index)).key ↔ r.uid = s.uid) := by
            intro r hr
            show identityOf r.get = identityOf (row.blank now (newUid index)).get ↔ _
            rw [hrow]
            constructor
            · intro heq
              have hkeys := uniqueKeys_iff.2 hunique
              unfold UniqueKeys at hkeys
              rw [List.map_map] at hkeys
              have hrs : r = s := List.inj_on_of_nodup_map hkeys hr hmem heq
              rw [hrs]
            · intro heq
              rw [d.spots.eq_of_key_eq hr hmem heq]
          have hthere :
              (row.entry now (newUid index)).key ∈ (d.spots.rows.map Spot.get).map identityOf := by
            rw [List.map_map]
            exact List.mem_map.2 ⟨s, hmem, ((hsame s hmem).2 rfl)⟩
          have hrewrite : ∀ uids : List String, (rewriteSpots uids row.setValues d).spots.rows =
              d.spots.rows.map fun r => if r.uid ∈ uids then row.merge r else r := by
            intro uids
            show (d.spots.rows.map fun r => if decide (r.uid ∈ uids) = true then
              (row.setValues.apply r).getD r else r) = _
            apply List.map_congr_left
            intro r _
            simp only [decide_eq_true_eq, row.setValues_apply, Option.getD_some]
          rw [upsert, if_pos hthere, hrewrite, List.map_map, List.map_map]
          apply List.map_congr_left
          intro r hr
          have hhit : r.uid ∈ (d.spots.select fun r => r.uid == s.uid).map Spot.uid ↔
              r.uid = s.uid := by
            constructor
            · intro hin
              obtain ⟨t, ht, htu⟩ := List.mem_map.1 hin
              rw [← htu]
              simpa using (Table.mem_select.1 ht).2
            · intro heq
              exact List.mem_map.2 ⟨r, Table.mem_select.2 ⟨hr, by simpa using heq⟩, rfl⟩
          simp only [Function.comp_apply]
          by_cases huid : r.uid = s.uid
          · rw [if_pos (hhit.2 huid), if_pos ((hsame r hr).2 huid), row.get_merge]
            rfl
          · rw [if_neg fun h => huid (hhit.1 h), if_neg fun h => huid ((hsame r hr).1 h)]
        · split at heff
          · cases heff
          · rename_i hconflict hfresh
            cases heff
            have hnone : d.spots.find? (newUid index) = none := by simpa using hfresh
            have hnew := conflicting_eq_none now hconflict hnone
            have huid : (row.merge (row.blank now (newUid index))).uid = newUid index :=
              row.setValues.keeps (row.setValues_apply _)
            show (d.spots.insert _).rows.map Spot.get = _
            rw [upsert, if_neg hnew, Table.rows_insert_of_new, List.map_append, List.map_singleton,
              row.get_merge]
            · rfl
            · rw [huid]
              exact Table.find?_eq_none.1 hnone

/-- A row without a key that goes through gets a uid that no spot has. -/
theorem key_ne_of_spotRow {index : ℕ} {row : SpotBulkRow} {d d' : Db} {uid? : Option String}
    (h : spotRow be now newUid index row d = .ok (uid?, d')) {s : Spot} (hs : s ∈ d.spots.rows)
    (hkey : ¬(s.source.isSome ∧ s.externalId.isSome)) :
    (row.entry now (newUid index)).key ≠ identityOf s.get := by
  intro heq
  have hentry : identityOf (row.blank now (newUid index)).get = identityOf s.get := heq
  rw [identityOf_uid hkey] at hentry
  by_cases hrow : (row.blank now (newUid index)).source.isSome ∧
      (row.blank now (newUid index)).externalId.isSome
  · rw [identityOf_source hrow] at hentry
    cases hentry
  · rw [identityOf_uid hrow] at hentry
    have huid : newUid index = s.uid := SqlValue.text.inj (SpotIdentity.uid.inj hentry)
    -- such a row conflicts with nothing, so the insert would be refused
    have hnone : row.conflicting d = none := by
      have hkeyed : ¬(row.source.isSome = true ∧ row.externalId.isSome = true) := hrow
      unfold SpotBulkRow.conflicting
      split
      · rename_i hsource hexternal
        exact absurd ⟨by rw [hsource]; rfl, by rw [hexternal]; rfl⟩ hkeyed
      · rfl
    have hthere : (d.spots.find? (newUid index)).isSome = true := by
      rw [huid, Table.find?_eq_some.2 ⟨hs, rfl⟩]
      rfl
    unfold spotRow at h
    cases hst : (insertOnConflict be now (newUid index) row).apply d with
    | error e =>
        rw [hst] at h
        cases h
    | ok out =>
        obtain ⟨eff, heff, -, -⟩ := Stmt.ok_of_apply (show _ = Except.ok (out.1, out.2) from hst)
        simp only [insertOnConflict, row.setValues_apply, hnone, hthere, if_true] at heff
        split at heff <;> cases heff

/-! ## All rows -/

/-- The entries of the rows from `index` on. -/
def spotEntries (now : Timestamp) (newUid : ℕ → String) :
    ℕ → List SpotBulkRow → List (Entry SpotIdentity SpotColumn SqlValue)
  | _, [] => []
  | index, row :: rows => row.entry now (newUid index) :: spotEntries now newUid (index + 1) rows

theorem lawful_spotEntries {index : ℕ} {rows : List SpotBulkRow} :
    ∀ e ∈ spotEntries now newUid index rows, e.Lawful identityOf := by
  induction rows generalizing index with
  | nil => nofun
  | cons row rows ih =>
      intro e he
      rcases List.mem_cons.1 he with rfl | hrest
      · exact row.lawful_entry now (newUid index)
      · exact ih e hrest

/-- A row that goes through keeps the constraint on sources. -/
theorem uniqueSources_spotRow {index : ℕ} {row : SpotBulkRow} {d d' : Db} {uid? : Option String}
    (hunique : UniqueSources d) (h : spotRow be now newUid index row d = .ok (uid?, d')) :
    UniqueSources d' := by
  rw [← uniqueKeys_iff, get_spotRow hunique h]
  exact (uniqueKeys_iff.2 hunique).upsert (row.lawful_entry now (newUid index))

/-- Rows that all go through upsert their entries. -/
theorem get_tablesAfter {index : ℕ} {rows : List SpotBulkRow} {d : Db} (hunique : UniqueSources d)
    (h : (spotRow be now newUid).failures index rows d = []) :
    ((spotRow be now newUid).tablesAfter index rows d).spots.rows.map Spot.get =
      upsertAll identityOf (spotEntries now newUid index rows) (d.spots.rows.map Spot.get) := by
  induction rows generalizing index d with
  | nil => rfl
  | cons row rows ih =>
      cases hrow : spotRow be now newUid index row d with
      | error e => simp [RowStep.failures, hrow] at h
      | ok out =>
          obtain ⟨uid?, d'⟩ := out
          simp only [RowStep.failures, hrow] at h
          simp only [RowStep.tablesAfter, hrow]
          rw [ih (uniqueSources_spotRow hunique hrow) h, get_spotRow hunique hrow]
          rfl

theorem uniqueSources_tablesAfter {index : ℕ} {rows : List SpotBulkRow} {d : Db}
    (hunique : UniqueSources d) :
    UniqueSources ((spotRow be now newUid).tablesAfter index rows d) := by
  induction rows generalizing index d with
  | nil => exact hunique
  | cons row rows ih =>
      cases hrow : spotRow be now newUid index row d with
      | error e =>
          simp only [RowStep.tablesAfter, hrow]
          exact ih hunique
      | ok out =>
          obtain ⟨uid?, d'⟩ := out
          simp only [RowStep.tablesAfter, hrow]
          exact ih (uniqueSources_spotRow hunique hrow)

theorem uniqueSources_bulkTables {dryRun : Bool} {rows : List SpotBulkRow} {d : Db}
    (hunique : UniqueSources d) :
      UniqueSources (bulkTables (spotRow be now newUid) dryRun rows d) := by
  unfold bulkTables
  split
  · exact uniqueSources_tablesAfter hunique
  · exact hunique

/-! ## A spot that was there -/

/-- The row updates the spot: both parts of the upsert key are there and agree. -/
def SpotBulkRow.matchesSpot (row : SpotBulkRow) (s : Spot) : Bool :=
  row.source.isSome && row.externalId.isSome && row.source == s.source && row.externalId
    == s.externalId

/-- The rows that update the spot. -/
def matchingRows (s : Spot) (rows : List SpotBulkRow) : List SpotBulkRow :=
  rows.filter fun row => row.matchesSpot s

theorem key_entry_iff {row : SpotBulkRow} {uid : String} {s : Spot}
    (hs : s.source.isSome ∧ s.externalId.isSome) :
    (row.entry now uid).key = identityOf s.get ↔ row.matchesSpot s = true := by
  show identityOf (row.blank now uid).get = _ ↔ _
  rw [identityOf_source hs]
  by_cases hrow : (row.blank now uid).source.isSome ∧ (row.blank now uid).externalId.isSome
  · rw [identityOf_source hrow, SpotIdentity.source.injEq, nullable_text_injective.eq_iff,
      nullable_text_injective.eq_iff]
    have hsource : row.source.isSome = true := hrow.1
    have hexternal : row.externalId.isSome = true := hrow.2
    simp [SpotBulkRow.matchesSpot, hsource, hexternal, SpotBulkRow.blank]
  · rw [identityOf_uid hrow]
    constructor
    · nofun
    · intro hmatch
      simp only [SpotBulkRow.matchesSpot, Bool.and_eq_true] at hmatch
      exact absurd ⟨hmatch.1.1.1, hmatch.1.1.2⟩ hrow

/-- The patches of a spot's identity are those of the rows that match it. -/
theorem patchFor_spotEntries {s : Spot} (hs : s.source.isSome ∧ s.externalId.isSome) (index : ℕ)
    (rows : List SpotBulkRow) : patchFor (spotEntries now newUid index rows) (identityOf s.get) =
      .seq ((matchingRows s rows).map SpotBulkRow.patch) := by
  induction rows generalizing index with
  | nil => rfl
  | cons row rows ih =>
      have hrest := ih (index + 1)
      unfold patchFor at hrest ⊢
      rw [spotEntries]
      by_cases hmatch : row.matchesSpot s = true
      · have hkey : (row.entry now (newUid index)).key = identityOf s.get :=
            (key_entry_iff hs).2 hmatch
        rw [List.filter_cons_of_pos (by simpa using hkey), matchingRows,
          List.filter_cons_of_pos (by exact hmatch),
          List.map_cons, List.map_cons, Patch.seq, Patch.seq, hrest]
        rfl
      · have hkey : (row.entry now (newUid index)).key ≠ identityOf s.get :=
          fun h => hmatch ((key_entry_iff hs).1 h)
        rw [List.filter_cons_of_neg (by simpa using hkey), hrest, matchingRows, matchingRows,
          List.filter_cons_of_neg (by exact hmatch)]

theorem mem_spotEntries {index : ℕ} {rows : List SpotBulkRow}
    {e : Entry SpotIdentity SpotColumn SqlValue} (h : e ∈ spotEntries now newUid index rows) :
    ∃ row ∈ rows, ∃ uid, e = row.entry now uid := by
  induction rows generalizing index with
  | nil => cases h
  | cons row rows ih =>
      rcases List.mem_cons.1 h with rfl | hrest
      · exact ⟨row, List.mem_cons_self .., _, rfl⟩
      · obtain ⟨row', hrow', huid⟩ := ih hrest
        exact ⟨row', List.mem_cons_of_mem _ hrow', huid⟩

theorem exists_spotEntry {row : SpotBulkRow} {rows : List SpotBulkRow} (h : row ∈ rows)
    (index : ℕ) : ∃ uid, row.entry now uid ∈ spotEntries now newUid index rows := by
  induction rows generalizing index with
  | nil => cases h
  | cons row' rows ih =>
      rcases List.mem_cons.1 h with rfl | hrest
      · exact ⟨_, List.mem_cons_self ..⟩
      · obtain ⟨uid, huid⟩ := ih hrest (index + 1)
        exact ⟨uid, List.mem_cons_of_mem _ huid⟩

/-- The entry of a row with a key stands for the rows with the same key. -/
theorem patchFor_of_keyed {row : SpotBulkRow} (hkeyed : row.keyed = true) (uid : String) (index : ℕ)
    (rows : List SpotBulkRow) :
    patchFor (spotEntries now newUid index rows) (row.entry now uid).key =
      .seq ((row.withSameKey rows).map SpotBulkRow.patch) := by
  obtain ⟨hsource, hexternal⟩ := Bool.and_eq_true_iff.1 hkeyed
  have hblank : (row.blank now uid).source.isSome ∧ (row.blank now uid).externalId.isSome :=
    ⟨hsource, hexternal⟩
  have hrows : matchingRows (row.blank now uid) rows = row.withSameKey rows := by
    apply List.filter_congr
    intro r _
    show (r.source.isSome && r.externalId.isSome && r.source == row.source &&
      r.externalId == row.externalId) = (r.source == row.source && r.externalId == row.externalId)
    rw [Bool.eq_iff_iff]
    simp only [Bool.and_eq_true, beq_iff_eq]
    constructor
    · exact fun h => ⟨h.1.2, h.2⟩
    · exact fun h => ⟨⟨⟨h.1 ▸ hsource, h.2 ▸ hexternal⟩, h.1⟩, h.2⟩
  rw [← hrows]
  exact patchFor_spotEntries hblank index rows

variable (now) in
/-- The spot that a row with a key conflicts with is the one with its identity. -/
theorem identityOf_conflicting {row : SpotBulkRow} {d : Db} {s : Spot}
    (h : row.conflicting d = some s) (uid : String) :
    identityOf s.get = (row.entry now uid).key := by
  obtain ⟨-, hsource, hexternal, hsome, hsome'⟩ := conflicting_eq_some h
  symm
  apply (key_entry_iff ⟨hsource ▸ hsome, hexternal ▸ hsome'⟩).2
  simp [SpotBulkRow.matchesSpot, hsome, hsome', hsource, hexternal]

variable (now) in
theorem key_not_mem_of_keyed {row : SpotBulkRow} {d : Db} (hkeyed : row.keyed = true)
    (h : row.conflicting d = none) (uid : String) :
    (row.entry now uid).key ∉ (d.spots.rows.map Spot.get).map identityOf := by
  rw [List.map_map]
  intro hmem
  obtain ⟨s, hs, hkey⟩ := List.mem_map.1 hmem
  have hkey' : (row.entry now uid).key = identityOf s.get := hkey.symm
  obtain ⟨hsource, hexternal⟩ := Bool.and_eq_true_iff.1 hkeyed
  have hblank : (row.blank now uid).source.isSome ∧ (row.blank now uid).externalId.isSome :=
    ⟨hsource, hexternal⟩
  have hsome : s.source.isSome ∧ s.externalId.isSome := by
    by_contra hno
    have hentry : identityOf (row.blank now uid).get = identityOf s.get := hkey'
    rw [identityOf_source hblank, identityOf_uid hno] at hentry
    cases hentry
  have hmatch := (key_entry_iff hsome).1 hkey'
  simp only [SpotBulkRow.matchesSpot, Bool.and_eq_true, beq_iff_eq] at hmatch
  obtain ⟨source, hrs⟩ := Option.isSome_iff_exists.1 hsource
  obtain ⟨externalId, hre⟩ := Option.isSome_iff_exists.1 hexternal
  rw [SpotBulkRow.conflicting, hrs, hre] at h
  have hnot := List.find?_eq_none.1 h s hs
  simp [← hmatch.1.2, ← hmatch.2, hrs, hre] at hnot

theorem matchingRows_conflicting {row : SpotBulkRow} {d : Db} {s : Spot}
    (h : row.conflicting d = some s) (rows : List SpotBulkRow) :
    matchingRows s rows = row.withSameKey rows := by
  obtain ⟨-, hsource, hexternal, hsome, hsome'⟩ := conflicting_eq_some h
  apply List.filter_congr
  intro r _
  show (r.source.isSome && r.externalId.isSome && r.source == s.source &&
    r.externalId == s.externalId) = (r.source == row.source && r.externalId == row.externalId)
  rw [hsource, hexternal, Bool.eq_iff_iff]
  simp only [Bool.and_eq_true, beq_iff_eq]
  constructor
  · exact fun h => ⟨h.1.2, h.2⟩
  · exact fun h => ⟨⟨⟨h.1 ▸ hsome, h.2 ▸ hsome'⟩, h.1⟩, h.2⟩

/-- No patch touches a fixed column. -/
theorem patchFor_of_fixed {c : SpotColumn} (hc : SpotBulkRow.Fixed c) (index : ℕ)
    (rows : List SpotBulkRow) (k : SpotIdentity) :
    patchFor (spotEntries now newUid index rows) k c = none := by
  apply Patch.seq_eq_none_iff.2
  intro p hp
  obtain ⟨e, he, rfl⟩ := List.mem_map.1 hp
  have hentry : ∀ {index : ℕ} {rows : List SpotBulkRow},
      e ∈ spotEntries now newUid index rows → e.patch c = none := by
    intro index rows
    induction rows generalizing index with
    | nil => nofun
    | cons row rows ih =>
        intro he
        rcases List.mem_cons.1 he with rfl | hrest
        · exact row.patch_of_fixed hc
        · exact ih hrest
  exact hentry (List.mem_filter.1 he).1

/-- A spot that was there has the patches of its identity afterwards. -/
theorem find?_tablesAfter {rows : List SpotBulkRow} {d : Db} (hunique : UniqueSources d)
    (h : (spotRow be now newUid).failures 0 rows d = []) {s : Spot} (hs : s ∈ d.spots.rows) :
    ∃ s', ((spotRow be now newUid).tablesAfter 0 rows d).spots.find? s.uid = some s' ∧
      s'.get = (patchFor (spotEntries now newUid 0 rows) (identityOf s.get)).apply s.get := by
  have hlawful : ∀ e ∈ spotEntries now newUid 0 rows, e.Lawful identityOf := lawful_spotEntries
  have hmem := mem_upsertAll_of_mem hlawful (List.mem_map_of_mem (f := Spot.get) hs)
  rw [← get_tablesAfter hunique h] at hmem
  obtain ⟨s', hs', hget⟩ := List.mem_map.1 hmem
  have huid : s'.get .uid = s.get .uid := by
    rw [hget]
    exact Patch.apply_of_none (patchFor_of_fixed (.inl rfl) 0 rows _)
  exact ⟨s', Table.find?_eq_some.2 ⟨hs', SqlValue.text.inj huid⟩, hget⟩

end Step

end Vivac
