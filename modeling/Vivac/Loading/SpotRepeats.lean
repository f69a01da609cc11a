import Vivac.Loading.JobRuns
import Vivac.Loading.RowReplays
import Vivac.Loading.SpotMerges

/-!
# Bulk jobs of spots, again and reordered

A job whose rows all have an upsert key. The database takes or refuses a row by its values, whatever
uid was generated for it and whenever it is stored (`Backend.IgnoresStamps`), and generated uids are
new (`NewUids`).
-/

set_option autoImplicit false

namespace Vivac

open Lib App

/-! ## Generated values -/

/-- `^[0-9A-Za-z]{22}$`. -/
def isUid (uid : String) : Bool := uid.length == 22 && uid.toList.all Char.isAlphanum

/-- The uids that are generated for `n` rows: distinct, and each well-formed. -/
structure UidsFor (newUid : ℕ → String) (n : ℕ) : Prop where
  injective : ∀ i < n, ∀ j < n, newUid i = newUid j → i = j
  wellFormed : ∀ i < n, isUid (newUid i) = true

/-- Uids that are generated for `n` new spots. -/
structure NewUids (newUid : ℕ → String) (n : ℕ) (d : Db) : Prop extends UidsFor newUid n where
  fresh : ∀ i < n, d.spots.find? (newUid i) = none

/-- Two spots that differ in generated values alone: the times of their storage, and well-formed
uids. -/
structure Spot.Alike (s t : Spot) : Prop where
  columns : ∀ c, c ≠ .uid → c ≠ .createdAt → c ≠ .updatedAt → s.get c = t.get c
  uids : s.uid = t.uid ∨ isUid s.uid = true ∧ isUid t.uid = true

/-- The database refuses a spot for its values, not for the generated ones. -/
def Backend.IgnoresStamps (be : Backend) : Prop :=
  ∀ s t : Spot, s.Alike t → be.refusesSpot s = be.refusesSpot t

theorem Spot.Alike.refl (s : Spot) : s.Alike s := ⟨fun _ _ _ _ => rfl, .inl rfl⟩

section Rows

variable {be : Backend} {now : Timestamp} {newUid : ℕ → String}

theorem Spot.Alike.merge {s t : Spot} (h : s.Alike t) (row : SpotBulkRow) :
    (row.merge s).Alike (row.merge t) := by
  refine ⟨fun c huid hcreated hupdated => ?_, ?_⟩
  · rw [row.get_merge, row.get_merge, Patch.apply, Patch.apply, h.columns c huid hcreated hupdated]
  · rw [row.setValues.keeps (row.setValues_apply s), row.setValues.keeps (row.setValues_apply t)]
    exact h.uids

theorem Spot.Alike.refuses {s t : Spot} (h : s.Alike t) (hbe : be.IgnoresStamps) :
    refusesSpotRow be s = refusesSpotRow be t := by
  have htier : s.trustTier = t.trustTier :=
    SqlValue.nullable_injective (f := .integer) (fun _ _ h => by cases h; rfl) nofun
      (h.columns .trustTier nofun nofun nofun)
  unfold refusesSpotRow Spot.checkTrustTier
  rw [htier, hbe s t h]

theorem Spot.Alike.matches {s t : Spot} (h : s.Alike t) (row : SpotBulkRow) :
    row.matchesSpot s = row.matchesSpot t := by
  have hsource : s.source = t.source :=
    nullable_text_injective (h.columns .source nofun nofun nofun)
  have hexternal : s.externalId = t.externalId :=
    nullable_text_injective (h.columns .externalId nofun nofun nofun)
  unfold SpotBulkRow.matchesSpot
  rw [hsource, hexternal]

/-- What a row is stored as differs from run to run in generated values alone. -/
theorem alike_blank (row : SpotBulkRow) (now now' : Timestamp) {uid uid' : String}
    (huid : isUid uid = true) (huid' : isUid uid' = true) :
    (row.blank now uid).Alike (row.blank now' uid') := by
  refine ⟨fun c hc hcreated hupdated => ?_, .inr ⟨huid, huid'⟩⟩
  cases c <;> first | rfl | contradiction

/-! ## Rows with a key -/

theorem conflicting_eq_find? {row : SpotBulkRow} (hkeyed : row.keyed = true) (d : Db) :
    row.conflicting d = d.spots.rows.find? fun s => row.matchesSpot s := by
  obtain ⟨hsource, hexternal⟩ := Bool.and_eq_true_iff.1 hkeyed
  obtain ⟨source, hs⟩ := Option.isSome_iff_exists.1 hsource
  obtain ⟨externalId, he⟩ := Option.isSome_iff_exists.1 hexternal
  rw [SpotBulkRow.conflicting, hs, he]
  dsimp only
  congr 1
  funext r
  simp only [SpotBulkRow.matchesSpot, hs, he, Option.isSome_some, Bool.true_and]
  rw [Bool.eq_iff_iff]
  simp only [Bool.and_eq_true, beq_iff_eq]
  exact and_congr eq_comm eq_comm

theorem source_merge (row : SpotBulkRow) (s : Spot) :
    (row.merge s).source = s.source ∧ (row.merge s).externalId = s.externalId := by
  have hcolumn : ∀ {c : SpotColumn}, SpotBulkRow.Fixed c → (row.merge s).get c = s.get c := by
    intro c hc
    rw [row.get_merge]
    exact Patch.apply_of_none (row.patch_of_fixed hc)
  exact ⟨nullable_text_injective (hcolumn (c := .source) (by simp [SpotBulkRow.Fixed])),
    nullable_text_injective (hcolumn (c := .externalId) (by simp [SpotBulkRow.Fixed]))⟩

theorem matches_merge (row row' : SpotBulkRow) (s : Spot) :
    row'.matchesSpot (row.merge s) = row'.matchesSpot s := by
  obtain ⟨hsource, hexternal⟩ := source_merge row s
  unfold SpotBulkRow.matchesSpot
  rw [hsource, hexternal]

/-- The spots with the row's key, merged with the row. -/
def mergeSpots (row : SpotBulkRow) (spots : List Spot) : List Spot :=
  spots.map fun s => if row.matchesSpot s then row.merge s else s

/-- What a row with a key that goes through makes of the spots. -/
theorem rows_spotRow {index : ℕ} {row : SpotBulkRow} {d d' : Db} {uid? : Option String}
    (hunique : UniqueSources d) (hkeyed : row.keyed = true)
    (h : spotRow be now newUid index row d = .ok (uid?, d')) :
    d'.spots.rows = if (row.conflicting d).isSome then mergeSpots row d.spots.rows
      else d.spots.rows ++ [row.merge (row.blank now (newUid index))] := by
  apply Spot.get_injective.list_map
  rw [get_spotRow hunique h]
  cases hconflict : row.conflicting d with
  | none =>
      have hnew := key_not_mem_of_keyed now hkeyed hconflict (newUid index)
      rw [upsert, if_neg hnew, Option.isSome_none, if_neg Bool.false_ne_true, List.map_append,
        List.map_singleton,
        row.get_merge]
      rfl
  | some s =>
      obtain ⟨hs, hsource, hexternal, hsome, hsome'⟩ := conflicting_eq_some hconflict
      have hthere : (row.entry now (newUid index)).key ∈
          (d.spots.rows.map Spot.get).map identityOf := by
        rw [← identityOf_conflicting now hconflict (newUid index)]
        exact List.mem_map_of_mem (List.mem_map_of_mem hs)
      rw [upsert, if_pos hthere, Option.isSome_some, if_pos rfl, mergeSpots,
        List.map_map, List.map_map]
      apply List.map_congr_left
      intro r _
      -- a spot has the row's identity exactly when the row matches it
      have hiff : identityOf r.get = (row.entry now (newUid index)).key ↔
          row.matchesSpot r = true := by
        by_cases hkey : r.source.isSome ∧ r.externalId.isSome
        · have hmatches : (row.entry now (newUid index)).key = identityOf r.get ↔ _ :=
              key_entry_iff hkey
          rw [← hmatches, eq_comm]
        · rw [identityOf_uid hkey, ← identityOf_conflicting now hconflict,
            identityOf_source ⟨hsource ▸ hsome, hexternal ▸ hsome'⟩]
          constructor
          · intro h
            cases h
          · intro hmatch
            simp only [SpotBulkRow.matchesSpot, Bool.and_eq_true, beq_iff_eq] at hmatch
            exact absurd ⟨hmatch.1.2 ▸ hsome, hmatch.2 ▸ hsome'⟩ hkey
      simp only [Function.comp_apply]
      by_cases hmatch : row.matchesSpot r = true
      · rw [if_pos (hiff.2 hmatch), if_pos hmatch, row.get_merge]
        rfl
      · rw [if_neg fun h => hmatch (hiff.1 h), if_neg hmatch]

/-- The database takes the row: as a new spot it would be stored as `proposed`. -/
def Takes (be : Backend) (row : SpotBulkRow) (proposed : Spot) (d : Db) : Prop :=
  refusesSpotRow be proposed = none ∧
    ∀ s, row.conflicting d = some s → refusesSpotRow be (row.merge s) = none

/-- An update of the spot in conflict is refused for its merged version. -/
theorem refusal_conflicting {row : SpotBulkRow} {d : Db} {s : Spot}
    (hs : row.conflicting d = some s) :
    refusal be row.setValues (d.spots.select fun r => r.uid == s.uid) =
      refusesSpotRow be (row.merge s) := by
  have hfind : d.spots.find? s.uid = some s :=
    Table.find?_eq_some.2 ⟨(conflicting_eq_some hs).1, rfl⟩
  rw [Table.select_eq_find? (k := s.uid) (fun r => beq_iff_eq), hfind]
  simp only [Option.toList_some, refusal, row.setValues_apply]
  cases refusesSpotRow be (row.merge s) <;> rfl

/-- A row that goes through is taken. -/
theorem takes_of_spotRow {index : ℕ} {row : SpotBulkRow} {d : Db} {out : Option String × Db}
    (h : spotRow be now newUid index row d = .ok out) :
    Takes be row (row.merge (row.blank now (newUid index))) d := by
  unfold spotRow Stmt.apply insertOnConflict at h
  simp only [row.setValues_apply] at h
  cases hproposed : refusesSpotRow be (row.merge (row.blank now (newUid index))) with
  | some e =>
      rw [hproposed] at h
      cases h
  | none =>
      refine ⟨hproposed, fun s hs => ?_⟩
      rw [hproposed, hs] at h
      simp only [updateSpots, refusal_conflicting hs] at h
      cases hmerge : refusesSpotRow be (row.merge s) with
      | none => rfl
      | some e =>
          rw [hmerge] at h
          cases h

/-- A row goes through when it is taken, and its uid is new. -/
theorem spotRow_isOk_iff {index : ℕ} {row : SpotBulkRow} {d : Db}
    (hfresh : d.spots.find? (newUid index) = none) :
    (∃ out, spotRow be now newUid index row d = .ok out) ↔
      Takes be row (row.merge (row.blank now (newUid index))) d := by
  constructor
  · rintro ⟨out, hout⟩
    exact takes_of_spotRow hout
  · rintro ⟨hproposed, hmerged⟩
    have hnone : (d.spots.find? (newUid index)).isSome = false := by rw [hfresh]; rfl
    unfold spotRow Stmt.apply insertOnConflict
    simp only [row.setValues_apply, hproposed]
    cases hconflict : row.conflicting d with
    | none => simp [Except.map, hnone]
    | some s => simp [updateSpots, refusal_conflicting hconflict, hmerged s hconflict, Except.map]

/-! ## Again -/

/-- What the tables and the uids still to come keep. -/
structure Prepared (newUid : ℕ → String) (n index : ℕ) (d : Db) : Prop where
  unique : UniqueSources d
  fresh : ∀ i, index ≤ i → i < n → d.spots.find? (newUid i) = none

theorem Prepared.step {n : ℕ} (huids : UidsFor newUid n) {index : ℕ} (hindex : index < n)
    {row : SpotBulkRow} (hkeyed : row.keyed = true) {d d' : Db} {uid? : Option String}
    (h : Prepared newUid n index d) (hok : spotRow be now newUid index row d = .ok (uid?, d')) :
    Prepared newUid n (index + 1) d' := by
  refine ⟨uniqueSources_spotRow h.unique hok, fun i hi hin => ?_⟩
  apply Table.find?_eq_none.2
  intro s hs heq
  rw [rows_spotRow h.unique hkeyed hok] at hs
  have hold := Table.find?_eq_none.1 (h.fresh i (by omega) hin)
  split at hs
  · obtain ⟨r, hr, rfl⟩ := List.mem_map.1 hs
    split at heq
    · rw [row.setValues.keeps (row.setValues_apply r)] at heq
      exact hold r hr heq
    · exact hold r hr heq
  · rcases List.mem_append.1 hs with hmem | hnew
    · exact hold s hmem heq
    · rw [List.mem_singleton.1 hnew, row.setValues.keeps (row.setValues_apply _)] at heq
      have hsame : index = i := huids.injective index hindex i hin heq
      omega

/-- The spots of two executions of the same rows: alike one by one, and the uids still to come are
new in the first. -/
structure Following (newUid : ℕ → String) (n index : ℕ) (d₁ d₂ : Db) : Prop where
  alike : List.Forall₂ Spot.Alike d₁.spots.rows d₂.spots.rows
  prepared : Prepared newUid n index d₁
  unique : UniqueSources d₂

variable {now' : Timestamp} {newUid' : ℕ → String}

/-- Where a row goes through the second time it goes through the first time. -/
theorem following_spotRow (hbe : be.IgnoresStamps) {n : ℕ} (huids : UidsFor newUid n)
    (huids' : UidsFor newUid' n) {index : ℕ} (hindex : index < n) {row : SpotBulkRow}
    (hkeyed : row.keyed = true) {d₁ d₂ d₂' : Db} {uid? : Option String}
    (hR : Following newUid n index d₁ d₂)
    (h : spotRow be now' newUid' index row d₂ = .ok (uid?, d₂')) :
    ∃ uid?' d₁', spotRow be now newUid index row d₁ = .ok (uid?', d₁') ∧
      Following newUid n (index + 1) d₁' d₂' := by
  have hblank := alike_blank row now now' (huids.wellFormed index hindex)
    (huids'.wellFormed index hindex)
  have hfind := forall₂_find? (R := Spot.Alike) (fun s t hst => hst.matches row) hR.alike
  rw [← conflicting_eq_find? hkeyed, ← conflicting_eq_find? hkeyed] at hfind
  have htakes₂ := takes_of_spotRow h
  have htakes₁ : Takes be row (row.merge (row.blank now (newUid index))) d₁ := by
    refine ⟨((hblank.merge row).refuses hbe).trans htakes₂.1, fun s hs => ?_⟩
    rw [hs] at hfind
    cases hconflict : row.conflicting d₂ with
    | none =>
        rw [hconflict] at hfind
        cases hfind
    | some t =>
        rw [hconflict] at hfind
        cases hfind with
        | some hst => exact ((hst.merge row).refuses hbe).trans (htakes₂.2 t hconflict)
  obtain ⟨⟨uid?', d₁'⟩, hfirst⟩ :=
      (spotRow_isOk_iff (hR.prepared.fresh index le_rfl hindex)).2 htakes₁
  have hrows₁ := rows_spotRow hR.prepared.unique hkeyed hfirst
  have hrows₂ := rows_spotRow hR.unique hkeyed h
  have hsome : (row.conflicting d₁).isSome = (row.conflicting d₂).isSome := by
    cases hone : row.conflicting d₁ <;> cases htwo : row.conflicting d₂ <;>
      rw [hone, htwo] at hfind <;> first | rfl | cases hfind
  refine ⟨uid?', d₁', hfirst, ?_, hR.prepared.step huids hindex hkeyed hfirst,
    uniqueSources_spotRow hR.unique h⟩
  rw [hrows₁, hrows₂, hsome]
  split
  · apply List.forall₂_map_left_iff.2
    apply List.forall₂_map_right_iff.2
    refine hR.alike.imp fun a b hab => ?_
    rw [hab.matches row]
    split
    · exact hab.merge row
    · exact hab
  · exact List.rel_append hR.alike (.cons (hblank.merge row) .nil)

/-- Rows that all go through the second time all go through the first time. -/
theorem failures_eq_nil_of_again (hbe : be.IgnoresStamps) {d d' : Db} {rows : List SpotBulkRow}
    (hspots : d'.spots = d.spots) (hunique : UniqueSources d) (hnew : NewUids newUid rows.length d)
    (huids' : UidsFor newUid' rows.length) (hkeyed : ∀ row ∈ rows, row.keyed = true)
    (h : (spotRow be now' newUid').failures 0 rows d' = []) :
    (spotRow be now newUid).failures 0 rows d = [] := by
  have halike : List.Forall₂ Spot.Alike d.spots.rows d'.spots.rows := by
    rw [hspots]
    exact List.forall₂_same.2 fun s _ => Spot.Alike.refl s
  refine RowStep.failures_eq_nil_of_follows (R := Following newUid rows.length)
    (n := rows.length) ?_
    (by omega) ⟨halike, ⟨hunique, fun i _ hi => hnew.fresh i hi⟩, hunique.congr hspots⟩ h
  intro index hindex row hrow d₁ d₂ b d₂' hR hok
  exact following_spotRow hbe hnew.toUidsFor huids' hindex (hkeyed row hrow) hR hok

/-- The entries of the rows, without the generated uids. -/
def plainEntries (now : Timestamp) (rows : List SpotBulkRow) :
    List (Entry SpotIdentity SpotColumn SqlValue) :=
  rows.map fun row => row.entry now ""

/-- The identity of a row with a key does not depend on the generated values. -/
theorem key_entry_of_keyed {row : SpotBulkRow} (hkeyed : row.keyed = true) (now : Timestamp)
    (uid : String) : (row.entry now uid).key =
      .source (.nullable .text row.source) (.nullable .text row.externalId) :=
  identityOf_source (s := row.blank now uid) (Bool.and_eq_true_iff.1 hkeyed)

theorem samePatches_plain {rows : List SpotBulkRow} (hkeyed : ∀ row ∈ rows, row.keyed = true)
    (now' : Timestamp) (index : ℕ) :
    SamePatches (spotEntries now newUid index rows) (plainEntries now' rows) := by
  unfold SamePatches plainEntries
  induction rows generalizing index with
  | nil => rfl
  | cons row rows ih =>
      have hrow := hkeyed row (List.mem_cons_self ..)
      rw [spotEntries, List.map_cons, List.map_cons, List.map_cons,
        ih (fun r hr => hkeyed r (List.mem_cons_of_mem _ hr)), key_entry_of_keyed hrow,
        key_entry_of_keyed hrow]
      rfl

/-- Rows that have gone through once change nothing when they go through again, on tables `d'` with
the spots they left. -/
theorem tablesAfter_again {d d' : Db} {rows : List SpotBulkRow} (hunique : UniqueSources d)
    (hkeyed : ∀ row ∈ rows, row.keyed = true)
    (hfirst : (spotRow be now newUid).failures 0 rows d = [])
    (hspots : d'.spots = ((spotRow be now newUid).tablesAfter 0 rows d).spots)
    (hagain : (spotRow be now' newUid').failures 0 rows d' = []) :
    ((spotRow be now' newUid').tablesAfter 0 rows d').spots = d'.spots := by
  have hunique' : UniqueSources d' := (uniqueSources_tablesAfter hunique).congr hspots
  apply Table.ext
  apply Spot.get_injective.list_map
  rw [get_tablesAfter hunique' hagain, hspots, get_tablesAfter hunique hfirst]
  apply upsertAll_again lawful_spotEntries lawful_spotEntries
  exact (samePatches_plain hkeyed 0 0).trans (samePatches_plain hkeyed 0 0).symm

/-! ## In another order -/

/-- Rows with an upsert key each, and not the same. -/
def Apart (row row' : SpotBulkRow) : Prop :=
  row.keyed = true ∧ row'.keyed = true ∧
    ¬(row.source = row'.source ∧ row.externalId = row'.externalId)

theorem Apart.symm {row row' : SpotBulkRow} (h : Apart row row') : Apart row' row :=
  ⟨h.2.1, h.1, fun heq => h.2.2 ⟨heq.1.symm, heq.2.symm⟩⟩

/-- Nothing that matches the one row matches the other. -/
theorem Apart.not_matches {row row' : SpotBulkRow} (h : Apart row row') {s : Spot}
    (hmatch : row'.matchesSpot s = true) : row.matchesSpot s = false := by
  obtain ⟨-, -, hne⟩ := h
  rw [Bool.eq_false_iff]
  intro hboth
  simp only [SpotBulkRow.matchesSpot, Bool.and_eq_true, beq_iff_eq] at hmatch hboth
  exact hne ⟨hboth.1.2.trans hmatch.1.2.symm, hboth.2.trans hmatch.2.symm⟩

theorem matches_blank (row row' : SpotBulkRow) (now : Timestamp) (uid : String) :
    row'.matchesSpot (row.merge (row.blank now uid)) = true ↔
      row'.keyed = true ∧ row'.source = row.source ∧ row'.externalId = row.externalId := by
  rw [matches_merge]
  simp only [SpotBulkRow.matchesSpot, SpotBulkRow.keyed, SpotBulkRow.blank,
    Bool.and_eq_true, beq_iff_eq]
  tauto

/-- A row leaves alone what another row conflicts with. -/
theorem conflicting_spotRow {index : ℕ} {row row' : SpotBulkRow} {d d' : Db} {uid? : Option String}
    (hunique : UniqueSources d) (hapart : Apart row row')
    (h : spotRow be now newUid index row d = .ok (uid?, d')) :
    row'.conflicting d' = row'.conflicting d := by
  rw [conflicting_eq_find? hapart.2.1, conflicting_eq_find? hapart.2.1,
    rows_spotRow hunique hapart.1 h]
  split
  · rw [mergeSpots, List.find?_map]
    have hpred :
        ((fun s => row'.matchesSpot s) ∘ fun s => if row.matchesSpot s then row.merge s else s) =
        fun s => row'.matchesSpot s := by
      funext s
      simp only [Function.comp_apply]
      split
      · exact matches_merge row row' s
      · rfl
    rw [hpred]
    cases hfind : d.spots.rows.find? fun s => row'.matchesSpot s with
    | none => rfl
    | some s =>
        have hmatch : row'.matchesSpot s = true := by simpa using List.find?_some hfind
        simp [hapart.not_matches hmatch]
  · rw [List.find?_append]
    have hnew : row'.matchesSpot (row.merge (row.blank now (newUid index))) = false := by
      rw [Bool.eq_false_iff]
      intro hmatch
      obtain ⟨-, hsource, hexternal⟩ := (matches_blank row row' now _).1 hmatch
      exact hapart.2.2 ⟨hsource.symm, hexternal.symm⟩
    simp [hnew]

variable (now') in
/-- Whether rows with distinct keys all go through does not depend on their order, on the time, or
on the generated uids. -/
theorem failures_eq_nil_iff_takes (hbe : be.IgnoresStamps) {d : Db} {rows : List SpotBulkRow}
    (hunique : UniqueSources d) (hnew : NewUids newUid rows.length d) (hrows : rows.Pairwise Apart)
    (hkeyed : ∀ row ∈ rows, row.keyed = true) {uid : String} (huid : isUid uid = true) :
    (spotRow be now newUid).failures 0 rows d = [] ↔
      ∀ row ∈ rows, Takes be row (row.merge (row.blank now' uid)) d := by
  refine RowStep.failures_eq_nil_iff (n := rows.length) (Prepared newUid rows.length)
    (fun row d => Takes be row (row.merge (row.blank now' uid)) d) Apart ?_ ?_ ?_
    (by omega) hrows ⟨hunique, fun i _ hi => hnew.fresh i hi⟩
  · intro index row d hindex _ hprepared
    have halike := (alike_blank row now now' (hnew.wellFormed index hindex) huid).merge row
    rw [spotRow_isOk_iff (hprepared.fresh index le_rfl hindex), Takes, Takes, halike.refuses hbe]
  · intro index row d b d' hindex hrow hprepared hok
    exact hprepared.step hnew.toUidsFor hindex (hkeyed row hrow) hok
  · intro index row row' d b d' _ hprepared hapart hok
    rw [Takes, Takes, conflicting_spotRow hprepared.unique hapart hok]

/-- A spot, without the uid that was generated for it if `d` does not have it. -/
def forgetNew (d : Db) (s : Spot) : Spot :=
  if (d.spots.find? s.uid).isSome then s else { s with uid := "" }

/-- The same, in columns. -/
def forgetColumns (d : Db) (v : SpotColumn → SqlValue) : SpotColumn → SqlValue :=
  if v .uid ∈ d.spots.rows.map fun s => SqlValue.text s.uid then v
  else Function.update v .uid (.text "")

theorem get_forgetNew (d : Db) (s : Spot) : (forgetNew d s).get = forgetColumns d s.get := by
  have hiff : (d.spots.find? s.uid).isSome = true ↔
      s.get .uid ∈ d.spots.rows.map fun s => SqlValue.text s.uid := by
    rw [Option.isSome_iff_exists, List.mem_map]
    constructor
    · rintro ⟨r, hr⟩
      obtain ⟨hmem, huid⟩ := Table.find?_eq_some.1 hr
      exact ⟨r, hmem, congrArg SqlValue.text huid⟩
    · rintro ⟨r, hr, huid⟩
      exact ⟨r, Table.find?_eq_some.2 ⟨hr, SqlValue.text.inj huid⟩⟩
  unfold forgetNew forgetColumns
  by_cases hthere : (d.spots.find? s.uid).isSome = true
  · rw [if_pos hthere, if_pos (hiff.1 hthere)]
  · rw [if_neg hthere, if_neg fun h => hthere (hiff.2 h)]
    funext c
    cases c <;> rfl

/-- What a new spot is stored as, without its uid. -/
theorem forgetColumns_entry {d : Db} (row : SpotBulkRow) (now : Timestamp) {uid : String}
    (hfresh : d.spots.find? uid = none) :
    forgetColumns d (row.patch.apply (row.blank now uid).get) =
      row.patch.apply (row.blank now "").get := by
  have hpatch : row.patch .uid = none := row.patch_of_fixed (.inl rfl)
  have huid : row.patch.apply (row.blank now uid).get .uid = .text uid := Patch.apply_of_none hpatch
  have hnot : row.patch.apply (row.blank now uid).get .uid ∉
      d.spots.rows.map fun s => SqlValue.text s.uid := by
    rw [huid, List.mem_map]
    rintro ⟨s, hs, heq⟩
    exact Table.find?_eq_none.1 hfresh s hs (SqlValue.text.inj heq)
  unfold forgetColumns
  rw [if_neg hnot]
  funext c
  by_cases hc : c = .uid
  · rw [hc, Function.update_self, Patch.apply_of_none hpatch]
    rfl
  · rw [Function.update_of_ne hc, Patch.apply, Patch.apply]
    congr 1
    cases c <;> first | rfl | contradiction

/-- The new spots of the rows, without their uids. -/
theorem forgetColumns_added {d : Db} {n : ℕ} {rows : List SpotBulkRow}
    (hfresh : ∀ i < n, d.spots.find? (newUid i) = none) (hkeyed : ∀ row ∈ rows, row.keyed = true)
    (keys : List SpotIdentity) (index : ℕ) (hlength : index + rows.length ≤ n) :
    (((spotEntries now newUid index rows).filter fun e => e.key ∉ keys).map fun e =>
        e.patch.apply e.base).map (forgetColumns d) =
      ((plainEntries now rows).filter fun e => e.key ∉ keys).map fun e => e.patch.apply e.base := by
  induction rows generalizing index with
  | nil => rfl
  | cons row rows ih =>
      have hrow := hkeyed row (List.mem_cons_self ..)
      rw [List.length_cons] at hlength
      have hrest := ih (fun r hr => hkeyed r (List.mem_cons_of_mem _ hr)) (index + 1) (by omega)
      have hkey : (row.entry now (newUid index)).key = (row.entry now "").key := by
        rw [key_entry_of_keyed hrow, key_entry_of_keyed hrow]
      unfold plainEntries at hrest ⊢
      rw [spotEntries, List.map_cons]
      by_cases hin : (row.entry now "").key ∈ keys
      · rw [List.filter_cons_of_neg (by simpa [hkey] using hin),
          List.filter_cons_of_neg (by simpa using hin), hrest]
      · rw [List.filter_cons_of_pos (by simpa [hkey] using hin),
          List.filter_cons_of_pos (by simpa using hin), List.map_cons, List.map_cons,
            List.map_cons, hrest]
        congr 1
        exact forgetColumns_entry row now (hfresh index (by omega))

theorem nodup_keys {rows : List SpotBulkRow} (hrows : rows.Pairwise Apart)
    (hkeyed : ∀ row ∈ rows, row.keyed = true) (now : Timestamp) :
    ((plainEntries now rows).map Entry.key).Nodup := by
  unfold plainEntries
  rw [List.map_map, List.Nodup, List.pairwise_map]
  refine hrows.imp_of_mem fun hr hr' hapart heq => ?_
  simp only [Function.comp_apply] at heq
  rw [key_entry_of_keyed (hkeyed _ hr), key_entry_of_keyed (hkeyed _ hr')] at heq
  obtain ⟨hsource, hexternal⟩ := SpotIdentity.source.inj heq
  exact hapart.2.2 ⟨nullable_text_injective hsource, nullable_text_injective hexternal⟩

/-- The spots after rows with distinct keys, without the generated uids. -/
theorem forgetColumns_tablesAfter {d : Db} {rows : List SpotBulkRow} (hunique : UniqueSources d)
    (hnew : NewUids newUid rows.length d) (hrows : rows.Pairwise Apart)
    (hkeyed : ∀ row ∈ rows, row.keyed = true) (h : (spotRow be now newUid).failures 0 rows d = []) :
    (((spotRow be now newUid).tablesAfter 0 rows d).spots.rows.map (forgetNew d)).map Spot.get =
      ((d.spots.rows.map Spot.get).map fun v =>
        (patchFor (plainEntries now rows) (identityOf v)).apply v) ++
      ((plainEntries now rows).filter fun e =>
        e.key ∉ (d.spots.rows.map Spot.get).map identityOf).map fun e => e.patch.apply e.base := by
  have hsame : SamePatches (spotEntries now newUid 0 rows) (plainEntries now rows) :=
    samePatches_plain hkeyed now 0
  have hnodup : ((spotEntries now newUid 0 rows).map Entry.key).Nodup := by
    rw [hsame.keys]
    exact nodup_keys hrows hkeyed now
  have hforget : ∀ spots : List Spot, (spots.map (forgetNew d)).map Spot.get =
      (spots.map Spot.get).map (forgetColumns d) := by
    intro spots
    rw [List.map_map, List.map_map]
    exact List.map_congr_left fun s _ => get_forgetNew d s
  rw [hforget, get_tablesAfter hunique h, upsertAll_of_nodup lawful_spotEntries hnodup,
    List.map_append,
    forgetColumns_added hnew.fresh hkeyed _ 0 (by omega)]
  congr 1
  rw [List.map_map]
  apply List.map_congr_left
  intro v hv
  obtain ⟨s, hs, rfl⟩ := List.mem_map.1 hv
  -- a spot that was there keeps its uid
  have huid :
      (patchFor (spotEntries now newUid 0 rows) (identityOf s.get)).apply s.get .uid = s.get .uid :=
    Patch.apply_of_none (patchFor_of_fixed (.inl rfl) 0 rows _)
  simp only [Function.comp_apply, forgetColumns]
  rw [if_pos, hsame.patchFor]
  rw [huid]
  exact List.mem_map_of_mem (f := fun s : Spot => SqlValue.text s.uid) hs

/-- Rows with distinct keys make the same spots in any order, up to the uids of new ones. -/
theorem perm_tablesAfter {d : Db} {rows rows' : List SpotBulkRow} (hunique : UniqueSources d)
    (hnew : NewUids newUid rows.length d) (hnew' : NewUids newUid' rows'.length d)
    (hrows : rows.Pairwise Apart)
    (hkeyed : ∀ row ∈ rows, row.keyed = true) (hperm : rows.Perm rows')
    (h : (spotRow be now newUid).failures 0 rows d = [])
    (h' : (spotRow be now newUid').failures 0 rows' d = []) :
    (((spotRow be now newUid).tablesAfter 0 rows d).spots.rows.map (forgetNew d)).Perm
      (((spotRow be now newUid').tablesAfter 0 rows' d).spots.rows.map (forgetNew d)) := by
  have hrows' : rows'.Pairwise Apart := hperm.pairwise hrows Apart.symm
  have hkeyed' : ∀ row ∈ rows', row.keyed = true := fun row hr => hkeyed row (hperm.mem_iff.2 hr)
  have hplain : (plainEntries now rows).Perm (plainEntries now rows') := hperm.map _
  rw [← List.map_perm_map_iff Spot.get_injective,
    forgetColumns_tablesAfter hunique hnew hrows hkeyed h,
    forgetColumns_tablesAfter hunique hnew' hrows' hkeyed' h']
  apply List.Perm.append
  · apply List.Perm.of_eq
    apply List.map_congr_left
    intro v _
    rw [patchFor_perm (nodup_keys hrows hkeyed now) hplain]
  · exact (hplain.filter _).map _

/-! ## The last row of a key -/

/-- After rows that all go through, one spot has the key of a row, with what the rows of the key
supply. -/
theorem exists_spot_tablesAfter {d : Db} {rows : List SpotBulkRow} (hunique : UniqueSources d)
    (h : (spotRow be now newUid).failures 0 rows d = []) {row : SpotBulkRow} (hrow : row ∈ rows)
    (hkeyed : row.keyed = true) :
    ∃ s ∈ ((spotRow be now newUid).tablesAfter 0 rows d).spots.rows,
      (∀ t ∈ ((spotRow be now newUid).tablesAfter 0 rows d).spots.rows,
        row.matchesSpot t = true ↔ t = s) ∧
      ∀ c v, Patch.seq ((row.withSameKey rows).map SpotBulkRow.patch) c = some v → s.get c = v := by
  have hunique' : UniqueSources ((spotRow be now newUid).tablesAfter 0 rows d) :=
    uniqueSources_tablesAfter hunique
  have hlawful : ∀ e ∈ spotEntries now newUid 0 rows, e.Lawful identityOf := lawful_spotEntries
  obtain ⟨uid, huid⟩ : ∃ uid, row.entry now uid ∈ spotEntries now newUid 0 rows :=
    exists_spotEntry hrow 0
  have hkeys := mem_keys_upsertAll (d.spots.rows.map Spot.get) hlawful huid
  rw [← get_tablesAfter hunique h] at hkeys
  obtain ⟨w, hw, hkey⟩ := List.mem_map.1 hkeys
  obtain ⟨s, hs, rfl⟩ := List.mem_map.1 hw
  have hidentity : ∀ t : Spot, row.matchesSpot t = true ↔
      identityOf t.get = (row.entry now uid).key := by
    intro t
    by_cases hsome : t.source.isSome ∧ t.externalId.isSome
    · have hmatches : (row.entry now uid).key = identityOf t.get ↔ _ := key_entry_iff hsome
      rw [← hmatches, eq_comm]
    · rw [identityOf_uid hsome, key_entry_of_keyed hkeyed]
      constructor
      · intro hmatch
        simp only [SpotBulkRow.matchesSpot, Bool.and_eq_true, beq_iff_eq] at hmatch
        exact absurd ⟨hmatch.1.2 ▸ hmatch.1.1.1, hmatch.2 ▸ hmatch.1.1.2⟩ hsome
      · intro h
        cases h
  refine ⟨s, hs, fun t ht => ?_, fun c v hv => ?_⟩
  · rw [hidentity]
    constructor
    · intro ht'
      have hkeysNodup := uniqueKeys_iff.2 hunique'
      unfold UniqueKeys at hkeysNodup
      rw [List.map_map] at hkeysNodup
      exact List.inj_on_of_nodup_map hkeysNodup ht hs (ht'.trans hkey.symm)
    · rintro rfl
      exact hkey
  · have hpatched : s.get ∈ upsertAll identityOf (spotEntries now newUid 0 rows)
        (d.spots.rows.map Spot.get) := by
      rw [← get_tablesAfter hunique h]
      exact List.mem_map_of_mem hs
    have hfor : patchFor (spotEntries now newUid 0 rows) (row.entry now uid).key = _ :=
      patchFor_of_keyed hkeyed uid 0 rows
    rcases mem_upsertAll hlawful hpatched with ⟨old, -, hold⟩ | ⟨e, he, -, hadded⟩
    · have hsame : identityOf old = (row.entry now uid).key := by
        rw [← hkey, hold, key_patchFor hlawful]
      rw [hold, hsame, hfor]
      exact Patch.apply_of_some hv
    · have hsame : e.key = (row.entry now uid).key := by
        rw [← hkey, hadded, key_patchFor hlawful, (hlawful e he).key_base]
      rw [hadded, hsame, hfor]
      exact Patch.apply_of_some hv

end Rows

end Vivac
