import Vivac.Core.SampleBackend
import Vivac.Loading.JobRuns
import Vivac.Loading.SpotPayloads

/-!
# Coordinates inside Korea

`SpotBulkRow._validate_coordinates` looks at the two coordinates of one row. A stored spot may get
its latitude from one row and its longitude from another, or keep one of them, and nothing looks at
such a pair (`mergesInKorea`). `coordinates_stay_in_korea` says that these pairs are all there is to
it.
-/

set_option autoImplicit false

namespace Vivac

open Lib App

/-! ## The check of a row -/

/-- The latitude that a pair supplies. -/
def SpotAttr.latitude? : SpotAttr → Option ℚ
  | .latitude v => v
  | _ => none

/-- The longitude that a pair supplies. -/
def SpotAttr.longitude? : SpotAttr → Option ℚ
  | .longitude v => v
  | _ => none

namespace SpotBulkRow

variable (row : SpotBulkRow)

def latitude : Option ℚ := (row.fields.filterMap SpotAttr.latitude?).getLast?

def longitude : Option ℚ := (row.fields.filterMap SpotAttr.longitude?).getLast?

/-- `_validate_coordinates`; `text` is `str` of a float. -/
def validateCoordinates (text : ℚ → String) : Except String Unit :=
  match row.latitude, row.longitude with
  | some latitude, some longitude =>
    if isWithinKorea latitude longitude then .ok ()
    else .error ("coordinates (" ++ text latitude ++ ", " ++ text longitude ++
      ") are outside Korea " ++
      "(lat " ++ text koreaLatRange.1 ++ "~" ++ text koreaLatRange.2 ++ ", " ++
      "lng " ++ text koreaLngRange.1 ++ "~" ++ text koreaLngRange.2 ++ ") — " ++
      "check the source CRS is WGS84 and that lat/lng are not swapped")
  | _, _ => .ok ()

/-- `trust_tier: int | None = Field(None, ge=1, le=3)`. -/
def tierInRange : Bool :=
  row.fields.all fun a =>
    match a with
    | .trustTier (some t) => decide (1 ≤ t ∧ t ≤ 3)
    | _ => true

end SpotBulkRow

/-- A request that the schema accepts. -/
structure SpotBulkRequest.Accepted (text : ℚ → String) (request : SpotBulkRequest) : Prop where
  nonempty : 1 ≤ request.rows.length
  bounded : request.rows.length ≤ 5000
  coordinates : ∀ row ∈ request.rows, row.validateCoordinates text = .ok ()
  tiers : ∀ row ∈ request.rows, row.tierInRange = true

/-- Both coordinates are there and lie in Korea, or one is missing. -/
def pairInKorea : Option ℚ → Option ℚ → Bool
  | some latitude, some longitude => isWithinKorea latitude longitude
  | _, _ => true

/-- Each spot with both coordinates lies in Korea. -/
def InKorea (d : Db) : Prop := ∀ s ∈ d.spots.rows, pairInKorea s.latitude s.longitude = true

theorem pairInKorea_of_validate {text : ℚ → String} {row : SpotBulkRow}
    (h : row.validateCoordinates text = .ok ()) :
      pairInKorea row.latitude row.longitude = true := by
  unfold SpotBulkRow.validateCoordinates at h
  cases hlat : row.latitude with
  | none => rfl
  | some latitude =>
      cases hlng : row.longitude with
      | none => rfl
      | some longitude =>
          rw [hlat, hlng] at h
          by_cases hin : isWithinKorea latitude longitude = true
          · exact hin
          · simp [hin] at h

/-! ## Pairs that come from several places -/

/-- The last of the rows that supplies a coordinate. -/
def lastWithCoordinate (rows : List SpotBulkRow) : Option SpotBulkRow :=
  (rows.filter fun row => row.latitude.isSome || row.longitude.isSome).getLast?

/-- The last latitude of the rows, or else the stored one. -/
def latitudeAfter (rows : List SpotBulkRow) (stored : Option ℚ) : Option ℚ :=
  (rows.filterMap SpotBulkRow.latitude).getLast?.or stored

/-- The last longitude of the rows, or else the stored one. -/
def longitudeAfter (rows : List SpotBulkRow) (stored : Option ℚ) : Option ℚ :=
  (rows.filterMap SpotBulkRow.longitude).getLast?.or stored

/-- The rows of one spot: the last that supplies a coordinate supplies both, or else the one that it
supplies lies in Korea with the other, which comes from an earlier row or is stored. -/
def spliceInKorea (rows : List SpotBulkRow) (latitude longitude : Option ℚ) : Bool :=
  match lastWithCoordinate rows with
  | some row =>
    (row.latitude.isSome && row.longitude.isSome) ||
      pairInKorea (latitudeAfter rows latitude) (longitudeAfter rows longitude)
  | none => true

/-- No spot that the rows name is left with a pair outside Korea whose parts come from different
places. -/
def mergesInKorea (rows : List SpotBulkRow) (d : Db) : Bool :=
  rows.all fun row => !row.keyed || spliceInKorea (row.withSameKey rows)
    ((row.conflicting d).bind Spot.latitude) ((row.conflicting d).bind Spot.longitude)

/-- What a list's last element with a property is followed by. -/
theorem getLast?_filter_eq_some {α : Type} {p : α → Bool} {xs : List α} {x : α}
    (h : (xs.filter p).getLast? = some x) :
    p x = true ∧ ∃ before after, xs = before ++ x :: after ∧ ∀ y ∈ after, p y = false := by
  induction xs with
  | nil => cases h
  | cons y ys ih =>
      cases hrest : (ys.filter p).getLast? with
      | some z =>
          have hz : z = x := by
            by_cases hy : p y = true
            · rw [List.filter_cons_of_pos hy, List.getLast?_cons, hrest] at h
              exact Option.some.inj h
            · rw [List.filter_cons_of_neg hy, hrest] at h
              exact Option.some.inj h
          obtain ⟨hp, before, after, heq, hafter⟩ := ih (hz ▸ hrest)
          exact ⟨hp, y :: before, after, by rw [heq]; rfl, hafter⟩
      | none =>
          have hnone : ys.filter p = [] := List.getLast?_eq_none_iff.1 hrest
          by_cases hy : p y = true
          · rw [List.filter_cons_of_pos hy, hnone] at h
            cases h
            refine ⟨hy, [], ys, rfl, fun z hz => ?_⟩
            simpa using List.filter_eq_nil_iff.1 hnone z hz
          · rw [List.filter_cons_of_neg hy, hnone] at h
            cases h

/-- Rows that each lie in Korea leave a spot that lay there outside exactly by a spliced pair. -/
theorem pairInKorea_after_iff {rows : List SpotBulkRow} {latitude longitude : Option ℚ}
    (hrows : ∀ row ∈ rows, pairInKorea row.latitude row.longitude = true)
    (hstored : pairInKorea latitude longitude = true) :
    pairInKorea (latitudeAfter rows latitude) (longitudeAfter rows longitude) = true ↔
      spliceInKorea rows latitude longitude = true := by
  unfold spliceInKorea
  cases hlast : lastWithCoordinate rows with
  | none =>
      -- no row supplies a coordinate
      have hnone : ∀ row ∈ rows, row.latitude = none ∧ row.longitude = none := by
        intro row hrow
        have hno := List.filter_eq_nil_iff.1 (List.getLast?_eq_none_iff.1 hlast) row hrow
        simpa using hno
      have hlat : rows.filterMap SpotBulkRow.latitude = [] :=
        List.filterMap_eq_nil_iff.2 fun row hrow => (hnone row hrow).1
      have hlng : rows.filterMap SpotBulkRow.longitude = [] :=
        List.filterMap_eq_nil_iff.2 fun row hrow => (hnone row hrow).2
      simp [latitudeAfter, longitudeAfter, hlat, hlng, hstored]
  | some row =>
      obtain ⟨-, before, after, rfl, hafter⟩ := getLast?_filter_eq_some hlast
      have hlat : after.filterMap SpotBulkRow.latitude = [] := by
        apply List.filterMap_eq_nil_iff.2
        intro r hr
        have hno := hafter r hr
        simp only [Bool.or_eq_false_iff, Option.isSome_eq_false_iff,
          Option.isNone_iff_eq_none] at hno
        exact hno.1
      have hlng : after.filterMap SpotBulkRow.longitude = [] := by
        apply List.filterMap_eq_nil_iff.2
        intro r hr
        have hno := hafter r hr
        simp only [Bool.or_eq_false_iff, Option.isSome_eq_false_iff,
          Option.isNone_iff_eq_none] at hno
        exact hno.2
      have hrow := hrows row (by simp)
      by_cases hboth : (row.latitude.isSome && row.longitude.isSome) = true
      · -- the row's own pair stays, and it was checked
        obtain ⟨hsome, hsome'⟩ := Bool.and_eq_true_iff.1 hboth
        obtain ⟨v, hv⟩ := Option.isSome_iff_exists.1 hsome
        obtain ⟨w, hw⟩ := Option.isSome_iff_exists.1 hsome'
        have hlatAfter : latitudeAfter (before ++ row :: after) latitude = some v := by
          simp [latitudeAfter, hv, hlat]
        have hlngAfter : longitudeAfter (before ++ row :: after) longitude = some w := by
          simp [longitudeAfter, hw, hlng]
        rw [hv, hw] at hrow
        simp [hlatAfter, hlngAfter, hrow, hboth]
      · simp [hboth]

/-! ## In columns -/

/-- The coordinates that the columns show. -/
def coordinate : SqlValue → Option ℚ
  | .number v => some v
  | _ => none

/-- `pairInKorea`, of a row seen as its columns. -/
def columnsInKorea (v : SpotColumn → SqlValue) : Bool :=
  pairInKorea (coordinate (v .latitude)) (coordinate (v .longitude))

theorem coordinate_nullable (v : Option ℚ) : coordinate (.nullable .number v) = v := by
  cases v <;> rfl

theorem inKorea_iff {d : Db} : InKorea d ↔ ∀ v ∈ d.spots.rows.map Spot.get,
    columnsInKorea v = true := by
  have hcolumns : ∀ s : Spot, columnsInKorea s.get = pairInKorea s.latitude s.longitude := by
    intro s
    simp only [columnsInKorea, Spot.get, coordinate_nullable]
  simp only [InKorea, List.mem_map, forall_exists_index, and_imp,
    forall_apply_eq_imp_iff₂, hcolumns]

/-- What a row's patch has for a number column that its pairs may name. -/
theorem patch_number (row : SpotBulkRow) {c : SpotColumn} {f : SpotAttr → Option ℚ}
    (hratings : row.ratings c = none) (htitle : c ≠ .title)
    (hpair : ∀ a : SpotAttr, a.isNull = false → Patch.single a.key a.value c = (f a).map .number)
    (hnull : ∀ a : SpotAttr, a.isNull = true → f a = none) :
    row.patch c = ((row.fields.filterMap f).getLast?).map .number := by
  have hvalues : ∀ as : List SpotAttr, ((as.filter fun a => !a.isNull).map fun a =>
      Patch.single a.key a.value).filterMap (fun p => p c) = (as.filterMap f).map .number := by
    intro as
    induction as with
    | nil => rfl
    | cons a as ih =>
        by_cases ha : a.isNull = true
        · rw [List.filter_cons_of_neg (by simp [ha]), List.filterMap_cons_none (hnull a ha), ih]
        · have hfalse : a.isNull = false := by simpa using ha
          rw [List.filter_cons_of_pos (by simp [hfalse]), List.map_cons, List.filterMap_cons,
            List.filterMap_cons, hpair a hfalse, ih]
          cases f a <;> rfl
  have hfirst : (Patch.single (V := SqlValue) SpotColumn.title (.text row.title)) c = none :=
    if_neg htitle
  show (row.ratings c).or (SpotAttr.patch (.title (some row.title) ::
    row.fields.filter fun a => !a.isNull) c) = _
  rw [hratings, Option.none_or, SpotAttr.patch, List.map_cons, Patch.seq_eq_getLast?,
    List.filterMap_cons_none (by exact hfirst), hvalues, List.getLast?_map]

theorem patch_latitude (row : SpotBulkRow) : row.patch .latitude = row.latitude.map .number := by
  apply patch_number row (c := .latitude) (f := SpotAttr.latitude?) rfl nofun
  · intro a ha
    cases a <;> first | rfl | (rename_i v; cases v <;> first | rfl | cases ha)
  · intro a ha
    cases a <;> first | rfl | (rename_i v; cases v <;> first | rfl | cases ha)

theorem patch_longitude (row : SpotBulkRow) : row.patch .longitude = row.longitude.map .number := by
  apply patch_number row (c := .longitude) (f := SpotAttr.longitude?) rfl nofun
  · intro a ha
    cases a <;> first | rfl | (rename_i v; cases v <;> first | rfl | cases ha)
  · intro a ha
    cases a <;> first | rfl | (rename_i v; cases v <;> first | rfl | cases ha)

/-- The coordinates after the patches of some rows. -/
theorem columnsInKorea_seq (rows : List SpotBulkRow) (v : SpotColumn → SqlValue) :
    columnsInKorea ((Patch.seq (rows.map SpotBulkRow.patch)).apply v) =
      pairInKorea (latitudeAfter rows (coordinate (v .latitude)))
        (longitudeAfter rows (coordinate (v .longitude))) := by
  have hlat : (rows.map SpotBulkRow.patch).filterMap (fun p => p .latitude) =
      (rows.filterMap SpotBulkRow.latitude).map .number := by
    rw [List.filterMap_map, List.map_filterMap]
    exact List.filterMap_congr fun row _ => patch_latitude row
  have hlng : (rows.map SpotBulkRow.patch).filterMap (fun p => p .longitude) =
      (rows.filterMap SpotBulkRow.longitude).map .number := by
    rw [List.filterMap_map, List.map_filterMap]
    exact List.filterMap_congr fun row _ => patch_longitude row
  unfold columnsInKorea latitudeAfter longitudeAfter
  rw [Patch.apply, Patch.apply, Patch.seq_eq_getLast?, Patch.seq_eq_getLast?, hlat, hlng,
    List.getLast?_map, List.getLast?_map]
  cases (rows.filterMap SpotBulkRow.latitude).getLast? <;>
    cases (rows.filterMap SpotBulkRow.longitude).getLast? <;> rfl

/-! ## The rows of one request -/

section Tables

variable {be : Backend} {now : Timestamp} {newUid : ℕ → String}

/-- A row without a key gets a uid that no spot has, now or before. -/
theorem key_ne_of_unkeyed {index : ℕ} {rows : List SpotBulkRow} {d : Db} (hunique : UniqueSources d)
    (h : (spotRow be now newUid).failures index rows d = []) {s : Spot} (hs : s ∈ d.spots.rows)
    (hkey : ¬(s.source.isSome ∧ s.externalId.isSome)) :
    ∀ e ∈ spotEntries now newUid index rows, e.key ≠ identityOf s.get := by
  induction rows generalizing index d with
  | nil => nofun
  | cons row rows ih =>
      cases hrow : spotRow be now newUid index row d with
      | error e => simp [RowStep.failures, hrow] at h
      | ok out =>
          obtain ⟨uid?, d'⟩ := out
          simp only [RowStep.failures, hrow] at h
          have hfirst : (row.entry now (newUid index)).key ≠ identityOf s.get :=
            key_ne_of_spotRow hrow hs hkey
          -- so the row leaves the spot as it is
          have hstill : s.get ∈ d'.spots.rows.map Spot.get := by
            rw [get_spotRow hunique hrow]
            have hmem := List.mem_map_of_mem (f := Spot.get) hs
            unfold upsert
            split
            · apply List.mem_map.2
              exact ⟨s.get, hmem, if_neg (Ne.symm hfirst)⟩
            · exact List.mem_append_left _ hmem
          obtain ⟨s', hs', hget⟩ := List.mem_map.1 hstill
          cases Spot.get_injective hget
          intro e he
          rcases List.mem_cons.1 he with rfl | hrest
          · exact hfirst
          · exact ih (uniqueSources_spotRow hunique hrow) h hs' e hrest

theorem not_keyed_of_uid {s : Spot} {k : SqlValue} (h : identityOf s.get = .uid k) :
    ¬(s.source.isSome ∧ s.externalId.isSome) := by
  intro hsome
  rw [identityOf_source hsome] at h
  cases h

/-- A row without a key has its identity to itself. -/
theorem patchFor_of_unkeyed {index : ℕ} {rows : List SpotBulkRow} {d : Db}
    (hunique : UniqueSources d)
    (h : (spotRow be now newUid).failures index rows d = [])
    {e : Entry SpotIdentity SpotColumn SqlValue} (he : e ∈ spotEntries now newUid index rows)
    {k : SqlValue} (hk : e.key = .uid k) :
    patchFor (spotEntries now newUid index rows) e.key = e.patch := by
  induction rows generalizing index d with
  | nil => cases he
  | cons row rows ih =>
      cases hrow : spotRow be now newUid index row d with
      | error e => simp [RowStep.failures, hrow] at h
      | ok out =>
          obtain ⟨uid?, d'⟩ := out
          simp only [RowStep.failures, hrow] at h
          have hunique' := uniqueSources_spotRow hunique hrow
          -- the spot that the first row leaves keeps the later rows from its identity
          have hlater : ∀ {k : SqlValue}, (row.entry now (newUid index)).key = .uid k →
              ∀ e' ∈ spotEntries now newUid (index + 1) rows,
                e'.key ≠ (row.entry now (newUid index)).key := by
            intro k hk
            have hthere : (row.entry now (newUid index)).key ∈
                (d'.spots.rows.map Spot.get).map identityOf := by
              rw [get_spotRow hunique hrow, map_key_upsert (row.lawful_entry now (newUid index))]
              split
              · assumption
              · exact List.mem_append_right _ (List.mem_singleton_self _)
            rw [List.map_map] at hthere
            obtain ⟨s', hs', hkey⟩ := List.mem_map.1 hthere
            have hkey' : identityOf s'.get = (row.entry now (newUid index)).key := hkey
            rw [← hkey']
            exact key_ne_of_unkeyed hunique' h hs' (not_keyed_of_uid (hkey'.trans hk))
          rcases List.mem_cons.1 he with rfl | hrest
          · have hnone : (spotEntries now newUid (index + 1) rows).filter
                (fun e' => e'.key = (row.entry now (newUid index)).key) = [] := by
              apply List.filter_eq_nil_iff.2
              intro e' he'
              simpa using hlater hk e' he'
            rw [patchFor, spotEntries, List.filter_cons_of_pos (by simp), hnone, List.map_singleton,
              Patch.seq_singleton]
          · have hne : (row.entry now (newUid index)).key ≠ e.key := by
              intro heq
              exact hlater (heq.trans hk) e hrest heq.symm
            rw [spotEntries, patchFor_cons_of_ne hne]
            exact ih hunique' h hrest

/-- The coordinates of a spot that was there, afterwards. -/
theorem columnsInKorea_old {rows : List SpotBulkRow} {s : Spot} {index : ℕ}
    (hsome : s.source.isSome ∧ s.externalId.isSome) :
    columnsInKorea ((patchFor (spotEntries now newUid index rows) (identityOf s.get)).apply s.get) =
      pairInKorea (latitudeAfter (matchingRows s rows) s.latitude)
        (longitudeAfter (matchingRows s rows) s.longitude) := by
  rw [patchFor_spotEntries hsome, columnsInKorea_seq]
  simp only [Spot.get, coordinate_nullable]

/-- Rows that the schema accepts, and that all go through, keep the spots in Korea exactly when no
spot is left with a spliced pair outside. -/
theorem inKorea_tablesAfter_iff {rows : List SpotBulkRow} {d : Db} (hunique : UniqueSources d)
    (hfail : (spotRow be now newUid).failures 0 rows d = []) (hkorea : InKorea d)
    (hrows : ∀ row ∈ rows, pairInKorea row.latitude row.longitude = true) :
    InKorea ((spotRow be now newUid).tablesAfter 0 rows d) ↔ mergesInKorea rows d = true := by
  have hlawful : ∀ e ∈ spotEntries now newUid 0 rows, e.Lawful identityOf := lawful_spotEntries
  have hsame : ∀ {row : SpotBulkRow} {r : SpotBulkRow}, r ∈ row.withSameKey rows →
      pairInKorea r.latitude r.longitude = true := fun hr => hrows _ (List.mem_filter.1 hr).1
  -- a new spot has no coordinates but those of its rows
  have hbase : ∀ {row : SpotBulkRow} {uid : String},
      coordinate ((row.entry now uid).base .latitude) =
      none ∧ coordinate ((row.entry now uid).base .longitude) = none := ⟨rfl, rfl⟩
  rw [inKorea_iff, get_tablesAfter hunique hfail, mergesInKorea, List.all_eq_true]
  constructor
  · intro hafter row hrow
    by_cases hkeyed : row.keyed = true
    · obtain ⟨uid, huid⟩ : ∃ uid, row.entry now uid ∈ spotEntries now newUid 0 rows :=
        exists_spotEntry hrow 0
      rw [hkeyed, Bool.not_true, Bool.false_or]
      cases hconflict : row.conflicting d with
      | some s =>
          obtain ⟨hs, hsource, hexternal, hsome, hsome'⟩ := conflicting_eq_some hconflict
          have hin := hafter _ (mem_upsertAll_of_mem hlawful (List.mem_map_of_mem hs))
          rw [columnsInKorea_old ⟨hsource ▸ hsome, hexternal ▸ hsome'⟩,
            matchingRows_conflicting hconflict] at hin
          exact (pairInKorea_after_iff (fun r hr => hsame hr) (hkorea s hs)).1 hin
      | none =>
          have hnew := key_not_mem_of_keyed now hkeyed hconflict uid
          obtain ⟨v, hv, hkey⟩ := List.mem_map.1 (mem_keys_upsertAll (d.spots.rows.map Spot.get)
            hlawful huid)
          have hin := hafter v hv
          rcases mem_upsertAll hlawful hv with ⟨old, hold, rfl⟩ | ⟨e, he, -, rfl⟩
          · rw [key_patchFor hlawful] at hkey
            exact absurd (hkey ▸ List.mem_map_of_mem hold) hnew
          · obtain ⟨row', -, uid', rfl⟩ := mem_spotEntries he
            rw [key_patchFor hlawful, (row'.lawful_entry now uid').key_base] at hkey
            rw [hkey, patchFor_of_keyed hkeyed, columnsInKorea_seq, hbase.1, hbase.2] at hin
            exact (pairInKorea_after_iff (fun r hr => hsame hr) rfl).1 hin
    · simp [hkeyed]
  · intro hmerges v hv
    rcases mem_upsertAll hlawful hv with ⟨old, hold, rfl⟩ | ⟨e, he, hnew, rfl⟩
    · obtain ⟨s, hs, rfl⟩ := List.mem_map.1 hold
      by_cases hsome : s.source.isSome ∧ s.externalId.isSome
      · rw [columnsInKorea_old hsome]
        cases hmatch : matchingRows s rows with
        | nil => simpa [latitudeAfter, longitudeAfter] using hkorea s hs
        | cons row rest =>
            have hrow : row ∈ matchingRows s rows := hmatch ▸ List.mem_cons_self ..
            obtain ⟨hmem, hmatches⟩ := List.mem_filter.1 hrow
            have hkeyed : row.keyed = true := by
              simp only [SpotBulkRow.matchesSpot, Bool.and_eq_true] at hmatches
              simp [SpotBulkRow.keyed, hmatches.1.1]
            -- by the constraint, the row conflicts with this spot
            have hconflict : row.conflicting d = some s := by
              cases hfound : row.conflicting d with
              | none =>
                  have hno := key_not_mem_of_keyed now hkeyed hfound ""
                  rw [(key_entry_iff hsome).2 hmatches] at hno
                  exact absurd (List.mem_map_of_mem (List.mem_map_of_mem hs)) hno
              | some t =>
                  obtain ⟨ht, -⟩ := conflicting_eq_some hfound
                  have heq := (identityOf_conflicting now hfound "").trans
                    ((key_entry_iff hsome).2 hmatches)
                  have hkeys := uniqueKeys_iff.2 hunique
                  unfold UniqueKeys at hkeys
                  rw [List.map_map] at hkeys
                  rw [List.inj_on_of_nodup_map hkeys ht hs heq]
            have hsplice := hmerges row hmem
            rw [hkeyed, hconflict, Bool.not_true, Bool.false_or] at hsplice
            rw [← hmatch, matchingRows_conflicting hconflict]
            exact (pairInKorea_after_iff (fun r hr => hsame hr) (hkorea s hs)).2 hsplice
      · have hnone : patchFor (spotEntries now newUid 0 rows) (identityOf s.get) = .seq [] := by
          rw [patchFor, List.filter_eq_nil_iff.2 fun e he => by
            simpa using key_ne_of_unkeyed hunique hfail hs hsome e he]
          rfl
        rw [hnone, Patch.apply_seq_nil]
        exact inKorea_iff.1 hkorea _ (List.mem_map_of_mem hs)
    · obtain ⟨row, hrow, uid, rfl⟩ := mem_spotEntries he
      by_cases hkeyed : row.keyed = true
      · have hconflict : row.conflicting d = none := by
          cases hfound : row.conflicting d with
          | none => rfl
          | some t =>
              obtain ⟨ht, -⟩ := conflicting_eq_some hfound
              rw [← identityOf_conflicting now hfound uid] at hnew
              exact absurd (List.mem_map_of_mem (List.mem_map_of_mem ht)) hnew
        have hsplice := hmerges row hrow
        rw [hkeyed, hconflict, Bool.not_true, Bool.false_or] at hsplice
        rw [patchFor_of_keyed hkeyed, columnsInKorea_seq, hbase.1, hbase.2]
        exact (pairInKorea_after_iff (fun r hr => hsame hr) rfl).2 hsplice
      · have huid : (row.entry now uid).key = .uid (.text uid) := by
          apply identityOf_uid (s := row.blank now uid)
          rintro ⟨hsource, hexternal⟩
          have hsource' : row.source.isSome = true := hsource
          have hexternal' : row.externalId.isSome = true := hexternal
          exact hkeyed (by simp [SpotBulkRow.keyed, hsource', hexternal'])
        have hone := columnsInKorea_seq [row] (row.entry now uid).base
        rw [List.map_singleton, Patch.seq_singleton, hbase.1, hbase.2] at hone
        rw [patchFor_of_unkeyed hunique hfail he huid]
        show columnsInKorea (row.patch.apply (row.entry now uid).base) = true
        rw [hone]
        have hpair := hrows row hrow
        cases hlat : row.latitude <;> cases hlng : row.longitude <;>
          simp [latitudeAfter, longitudeAfter, hlat, hlng, pairInKorea] at hpair ⊢
        exact hpair

end Tables

/-! ## Jobs one after another -/

/-- A job whose spots request the schema has accepted is processed. -/
structure LoadsSpots (cfg : Settings) (be : Backend) (text : ℚ → String)
    (x : JobRun × SpotBulkRequest) (s s' : State Unit) : Prop where
  accepted : x.2.Accepted text
  job : ∃ job, s.db.jobs.find? x.1.uid = some job ∧ job.payload = .spots x.2
  processed : x.1.Processed cfg be s s'

/-- The same, where no spot is left with a spliced pair outside Korea. -/
structure LoadsInKorea (cfg : Settings) (be : Backend) (text : ℚ → String)
    (x : JobRun × SpotBulkRequest) (s s' : State Unit) : Prop where
  loads : LoadsSpots cfg be text x s s'
  merges : x.2.dryRun = false → mergesInKorea x.2.rows s.db = true

section Runs

variable {cfg : Settings} {be : Backend} {text : ℚ → String} {x : JobRun × SpotBulkRequest}
  {s s' : State Unit}

theorem LoadsSpots.spots (h : LoadsSpots cfg be text x s s') (hs : Between s) :
    s'.db.spots = (bulkTables (spotRow be x.1.now x.1.newUid) x.2.dryRun x.2.rows s.db).spots := by
  obtain ⟨job, hjob, hpayload⟩ := h.job
  have hrows := (h.processed.same_rows hs hjob).spots
  rwa [hpayload] at hrows

theorem LoadsSpots.pairs (h : LoadsSpots cfg be text x s s') :
    ∀ row ∈ x.2.rows, pairInKorea row.latitude row.longitude = true :=
  fun row hrow => pairInKorea_of_validate (h.accepted.coordinates row hrow)

/-- An applied job leaves the spots in Korea exactly when its merges do. -/
theorem LoadsSpots.inKorea_iff (h : LoadsSpots cfg be text x s s') (hs : Between s)
    (hunique : UniqueSources s.db) (hkorea : InKorea s.db) (happlied : SaysApplied x.1.uid s'.db) :
    InKorea s'.db ↔ mergesInKorea x.2.rows s.db = true := by
  obtain ⟨job, hjob, hpayload⟩ := h.job
  obtain ⟨hfail, hdry⟩ := (h.processed.spots_kept_iff hs hjob hpayload).1 happlied
  rw [← inKorea_tablesAfter_iff hunique hfail hkorea h.pairs, InKorea, h.spots hs,
    bulkTables, if_pos ⟨hfail, hdry⟩]
  rfl

/-- One job of a run whose merges stay in Korea. -/
theorem LoadsInKorea.step (h : LoadsInKorea cfg be text x s s') (hs : Between s)
    (hunique : UniqueSources s.db) (hkorea : InKorea s.db) :
    Between s' ∧ UniqueSources s'.db ∧ InKorea s'.db := by
  have hspots := h.loads.spots hs
  refine ⟨h.loads.processed.between, ?_, ?_⟩
  · rw [UniqueSources, hspots]
    exact uniqueSources_bulkTables hunique
  · rw [InKorea, hspots, bulkTables]
    split
    · rename_i hkeep
      exact (inKorea_tablesAfter_iff hunique hkeep.1 hkorea h.loads.pairs).2 (h.merges hkeep.2)
    · exact hkorea

end Runs

/-- After any sequence of accepted jobs whose merges stay in Korea, every spot with both coordinates
lies in Korea; and a further job that is applied leaves it so exactly when its merges do. -/
theorem coordinates_stay_in_korea (cfg : Settings) (be : Backend) (text : ℚ → String)
    {xs : List (JobRun × SpotBulkRequest)} {s s₁ : State Unit} (hs : Between s)
    (hunique : UniqueSources s.db) (hkorea : InKorea s.db)
    (hrun : Turns (LoadsInKorea cfg be text) xs s s₁) :
    InKorea s₁.db ∧ ∀ x s₂, LoadsSpots cfg be text x s₁ s₂ → SaysApplied x.1.uid s₂.db →
      (InKorea s₂.db ↔ mergesInKorea x.2.rows s₁.db = true) := by
  have hend : Between s₁ ∧ UniqueSources s₁.db ∧ InKorea s₁.db := by
    refine hrun.invariant (I := fun s => Between s ∧ UniqueSources s.db ∧ InKorea s.db) ?_
      ⟨hs, hunique, hkorea⟩
    rintro x - a b hstep ⟨ha, huniqueA, hkoreaA⟩
    exact hstep.step ha huniqueA hkoreaA
  exact ⟨hend.2.2, fun x s₂ hload happlied => hload.inKorea_iff hend.1 hend.2.1 hend.2.2 happlied⟩

namespace Sample

/-- A spot in Seoul with an upsert key. -/
def inSeoul : Spot :=
  { spot "s" with
    source := some "seed"
    externalId := some "e"
    latitude := some 37.5
    longitude := some 127 }

/-- A request of one row for the spot, which supplies the coordinates of `fields`. -/
def moving (fields : List SpotAttr) (h : fields.all SpotAttr.isBulkField = true) :
    SpotBulkRequest :=
  ⟨false, [{
    title := "s"
    source := some "seed"
    externalId := some "e"
    fields := fields
    editable := h }]⟩

/-- The spot, and a running job of the request. -/
def movingTables (request : SpotBulkRequest) : Db :=
  { Db.empty with
    spots := ⟨[inSeoul], List.nodup_singleton _⟩
    jobs := ⟨[{ runningJob with payload := .spots request }], List.nodup_singleton _⟩ }

theorem uniqueSources_movingTables (request : SpotBulkRequest) :
    UniqueSources (movingTables request) := by
  intro s hs t ht _ _ _ _
  rw [List.mem_singleton.1 hs, List.mem_singleton.1 ht]

theorem inKorea_movingTables (request : SpotBulkRequest) : InKorea (movingTables request) := by
  intro s hs
  rw [List.mem_singleton.1 hs]
  decide +kernel

/-- A latitude alone, south of Korea. -/
def southward : SpotBulkRequest := moving [.latitude (some 10)] rfl

/-- Both coordinates, of Busan. -/
def toBusan : SpotBulkRequest := moving [.latitude (some 35), .longitude (some 129)] rfl

/-- The coordinates of the spot. -/
def coordinates (s : State Unit) : Option (Option ℚ × Option ℚ) :=
  (s.db.spots.find? "s").map fun s => (s.latitude, s.longitude)

end Sample

/-- An accepted row with a latitude alone moves a spot out of Korea. -/
theorem coordinates_leave_korea : ∃ s' : State Unit,
    LoadsSpots Sample.settings Sample.backend (fun _ => "") (Sample.jobRun, Sample.southward)
      (World.fresh (Sample.movingTables Sample.southward)) s' ∧
    InKorea (Sample.movingTables Sample.southward) ∧ ¬InKorea s'.db := by
  have hrun : (Sample.afterJob (Sample.movingTables Sample.southward)).map Sample.coordinates =
      some (some (some 10, some 127)) := by
    decide +kernel
  obtain ⟨s', hs', hcoordinates⟩ := Option.map_eq_some_iff.1 hrun
  have haccepted : Sample.southward.Accepted fun _ => "" := by
    refine ⟨by decide, by decide, ?_, ?_⟩
    · intro row hrow
      rw [List.mem_singleton.1 hrow]
      rfl
    · intro row hrow
      rw [List.mem_singleton.1 hrow]
      rfl
  refine ⟨s', ⟨haccepted, ⟨_, rfl, rfl⟩, Sample.processed_of_afterJob hs'⟩,
    Sample.inKorea_movingTables _, fun hkorea => ?_⟩
  obtain ⟨spot, hfind, hpair⟩ := Option.map_eq_some_iff.1 hcoordinates
  have hin := hkorea spot (Table.find?_eq_some.1 hfind).1
  obtain ⟨hlat, hlng⟩ := Prod.mk.inj hpair
  rw [hlat, hlng] at hin
  revert hin
  decide +kernel

/-- A row with both coordinates moves it inside Korea. -/
theorem coordinates_stay_in_korea_busan : ∃ s' : State Unit,
    (Sample.afterJob (Sample.movingTables Sample.toBusan)).map Sample.coordinates =
      some (some (some 35, some 129)) ∧
    Sample.afterJob (Sample.movingTables Sample.toBusan) = some s' ∧ InKorea s'.db := by
  have hrun : (Sample.afterJob (Sample.movingTables Sample.toBusan)).map Sample.coordinates =
      some (some (some 35, some 129)) := by
    decide +kernel
  obtain ⟨s', hs', -⟩ := Option.map_eq_some_iff.1 hrun
  have haccepted : Sample.toBusan.Accepted fun _ => "" := by
    refine ⟨by decide, by decide, ?_, ?_⟩
    · intro row hrow
      rw [List.mem_singleton.1 hrow]
      have hin : isWithinKorea 35 129 = true := by decide +kernel
      exact if_pos hin
    · intro row hrow
      rw [List.mem_singleton.1 hrow]
      rfl
  have hload : LoadsInKorea Sample.settings Sample.backend (fun _ => "")
      (Sample.jobRun, Sample.toBusan) (World.fresh (Sample.movingTables Sample.toBusan)) s' := by
    refine ⟨⟨haccepted, ⟨_, rfl, rfl⟩, Sample.processed_of_afterJob hs'⟩, fun _ => ?_⟩
    decide +kernel
  have hstart : Between (World.fresh (Sample.movingTables Sample.toBusan) : State Unit) := rfl
  refine ⟨s', hrun, hs', ?_⟩
  exact (coordinates_stay_in_korea Sample.settings Sample.backend (fun _ => "") hstart
    (Sample.uniqueSources_movingTables _) (Sample.inKorea_movingTables _) (Turns.single hload)).1

end Vivac
