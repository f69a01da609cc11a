import Vivac.Core.SampleBackend
import Vivac.Loading.JobRuns
import Vivac.Loading.SpotPayloads

/-!
# The columns a bulk upsert leaves alone

A job of spots that went through, and a spot that was there and matches some of its rows as sent. A
column that no matching row supplies should keep its value, and any other hold the value of the last
row that supplies it (`FieldFrame`). The rating columns have a default in the schema, so the dump
without nulls always has them: `field_frame_iff` says when that makes no difference.
-/

set_option autoImplicit false

namespace Vivac

open Lib App

/-- The rows as sent that match the spot on source and external id. -/
def matchingBodies (s : Spot) (bodies : List SpotBulkBody) : List SpotBulkBody :=
  bodies.filter fun body => body.validate.matchesSpot s

/-- The spot `s` afterwards is `s'`: the columns that no row supplies are as they were, the others
as the last row that supplies them has them. -/
structure FieldFrame (bodies : List SpotBulkBody) (s s' : Spot) : Prop where
  kept : ∀ c, c ≠ .updatedAt → (∀ body ∈ bodies, body.supplied c = none) → s'.get c = s.get c
  last : ∀ c before body after v, bodies = before ++ body :: after → body.supplied c = some v →
    (∀ later ∈ after, later.supplied c = none) → s'.get c = v
  same : s'.uid = s.uid ∧ s'.createdAt = s.createdAt ∧ s'.assignedToUid = s.assignedToUid ∧
    s'.deletedAt = s.deletedAt

/-- The last `rating_avg` that the rows supply, or the stored one. -/
def keptRatingAvg (bodies : List SpotBulkBody) (s : Spot) : ℚ :=
  (bodies.filterMap SpotBulkBody.ratingAvg).getLast?.getD s.ratingAvg

/-- The last `review_count` that the rows supply, or the stored one. -/
def keptReviewCount (bodies : List SpotBulkBody) (s : Spot) : ℤ :=
  (bodies.filterMap SpotBulkBody.reviewCount).getLast?.getD s.reviewCount

/-- The last of the rows supplies the rating columns, or they are to be zero anyway. -/
structure RatingsSupplied (bodies : List SpotBulkBody) (s : Spot) : Prop where
  avg : ∀ last, bodies.getLast? = some last → last.ratingAvg.isSome ∨ keptRatingAvg bodies s = 0
  count : ∀ last, bodies.getLast? = some last →
    last.reviewCount.isSome ∨ keptReviewCount bodies s = 0

/-! ## Column by column -/

namespace SpotBulkBody

variable (body : SpotBulkBody)

/-- The ratings that a row as sent supplies. -/
def ratingsSent : Patch SpotColumn SqlValue :=
  .seq ((body.ratingAvg.map fun v => .single .ratingAvg (.number v)).toList ++
    (body.reviewCount.map fun v => .single .reviewCount (.integer v)).toList)

/-- The pairs of a row name no rating column. -/
theorem patch_fields_rating {c : SpotColumn} (hc : c = .ratingAvg ∨ c = .reviewCount) :
    SpotAttr.patch (.title (some body.title) :: body.fields.filter fun a => !a.isNull) c =
      none := by
  apply Patch.seq_eq_none_iff.2
  intro p hp
  obtain ⟨a, -, rfl⟩ := List.mem_map.1 hp
  apply if_neg
  rintro rfl
  cases a <;> simp [SpotAttr.key] at hc

theorem ratingsSent_of_ne {c : SpotColumn} (hc : c ≠ .ratingAvg ∧ c ≠ .reviewCount) :
    body.ratingsSent c = none := by
  apply Patch.seq_eq_none_iff.2
  intro p hp
  rcases List.mem_append.1 hp with havg | hcount
  · obtain ⟨v, -, rfl⟩ := Option.map_eq_some_iff.1 (Option.mem_toList.1 havg)
    exact if_neg hc.1
  · obtain ⟨v, -, rfl⟩ := Option.map_eq_some_iff.1 (Option.mem_toList.1 hcount)
    exact if_neg hc.2

theorem supplied_ratingAvg : body.supplied .ratingAvg = body.ratingAvg.map .number := by
  have hrest := body.patch_fields_rating (.inl rfl)
  show (body.ratingsSent .ratingAvg).or _ = _
  rw [hrest, Option.or_none, ratingsSent]
  cases body.ratingAvg <;> cases body.reviewCount <;> rfl

theorem supplied_reviewCount : body.supplied .reviewCount = body.reviewCount.map .integer := by
  have hrest := body.patch_fields_rating (.inr rfl)
  show (body.ratingsSent .reviewCount).or _ = _
  rw [hrest, Option.or_none, ratingsSent]
  cases body.ratingAvg <;> cases body.reviewCount <;> rfl

theorem loaded_ratingAvg : body.loaded.patch .ratingAvg =
    some (.number (body.ratingAvg.getD 0)) := by
  rw [body.patch_loaded]
  rfl

theorem loaded_reviewCount :
    body.loaded.patch .reviewCount = some (.integer (body.reviewCount.getD 0)) := by
  rw [body.patch_loaded]
  rfl

/-- Beside the ratings, the worker sets what was sent. -/
theorem loaded_of_ne {c : SpotColumn} (hc : c ≠ .ratingAvg ∧ c ≠ .reviewCount) :
    body.loaded.patch c = body.supplied c := by
  have hratings : body.validate.ratings c = none := by
    apply Patch.seq_eq_none_iff.2
    intro p hp
    rcases List.mem_pair.1 hp with rfl | rfl
    · exact if_neg hc.1
    · exact if_neg hc.2
  have hsent := body.ratingsSent_of_ne hc
  rw [body.patch_loaded]
  show (body.validate.ratings c).or _ = (body.ratingsSent c).or _
  rw [hratings, hsent]

theorem supplied_of_fixed {c : SpotColumn} (hc : SpotBulkRow.Fixed c) : body.supplied c = none := by
  have hne : c ≠ .ratingAvg ∧ c ≠ .reviewCount := by
    constructor <;> rintro rfl <;> simp [SpotBulkRow.Fixed] at hc
  rw [← body.loaded_of_ne hne]
  exact body.loaded.patch_of_fixed hc

end SpotBulkBody

/-- The frame says that the columns are those of the supplied values, in order. -/
theorem fieldFrame_iff {bodies : List SpotBulkBody} {s s' : Spot} (hupdated : s'.updatedAt =
    s.updatedAt) :
    FieldFrame bodies s s' ↔
      s'.get = (Patch.seq (bodies.map SpotBulkBody.supplied)).apply s.get := by
  constructor
  · intro h
    funext c
    by_cases hc : c = .updatedAt
    · subst hc
      have hnone : Patch.seq (bodies.map SpotBulkBody.supplied) .updatedAt = none := by
        apply Patch.seq_eq_none_iff.2
        intro p hp
        obtain ⟨body, -, rfl⟩ := List.mem_map.1 hp
        exact body.supplied_of_fixed (by simp [SpotBulkRow.Fixed])
      rw [Patch.apply_of_none hnone]
      simp only [Spot.get, hupdated]
    · cases hseq : Patch.seq (bodies.map SpotBulkBody.supplied) c with
      | none =>
          rw [Patch.apply_of_none hseq]
          apply h.kept c hc
          intro body hbody
          exact Patch.seq_eq_none_iff.1 hseq _ (List.mem_map_of_mem hbody)
      | some v =>
          rw [Patch.apply_of_some hseq]
          obtain ⟨before, p, after, hsplit, hp, hafter⟩ := Patch.seq_eq_some_iff.1 hseq
          obtain ⟨before', rest, rfl, rfl, hrest⟩ := List.map_eq_append_iff.1 hsplit
          obtain ⟨body, after', rfl, rfl, rfl⟩ := List.map_eq_cons_iff.1 hrest
          apply h.last c before' body after' v rfl hp
          intro later hlater
          exact hafter _ (List.mem_map_of_mem hlater)
  · intro h
    have hkept : ∀ c, (∀ body ∈ bodies, body.supplied c = none) → s'.get c = s.get c := by
      intro c hnone
      rw [h]
      apply Patch.apply_of_none
      apply Patch.seq_eq_none_iff.2
      intro p hp
      obtain ⟨body, hbody, rfl⟩ := List.mem_map.1 hp
      exact hnone body hbody
    have hfixed : ∀ {c : SpotColumn}, SpotBulkRow.Fixed c → s'.get c = s.get c :=
      fun hc => hkept _ fun body _ => body.supplied_of_fixed hc
    refine ⟨fun c _ => hkept c, ?_, ?_⟩
    · rintro c before body after v rfl hv hafter
      rw [h]
      apply Patch.apply_of_some
      apply Patch.seq_eq_some_iff.2
      refine ⟨before.map SpotBulkBody.supplied, body.supplied, after.map SpotBulkBody.supplied,
        by simp, hv, ?_⟩
      intro q hq
      obtain ⟨later, hlater, rfl⟩ := List.mem_map.1 hq
      exact hafter later hlater
    · have htime := nullable_timestamp_injective
      refine ⟨?_, ?_, ?_, ?_⟩
      · exact SqlValue.text.inj (hfixed (c := .uid) (by simp [SpotBulkRow.Fixed]))
      · exact htime (hfixed (c := .createdAt) (by simp [SpotBulkRow.Fixed]))
      · exact nullable_text_injective (hfixed (c := .assignedToUid) (by simp [SpotBulkRow.Fixed]))
      · exact htime (hfixed (c := .deletedAt) (by simp [SpotBulkRow.Fixed]))

section Ratings

variable {bodies : List SpotBulkBody} {s : Spot}

/-- What the rows as sent leave in a rating column, and what the worker's rows leave. -/
theorem seq_supplied_ratingAvg :
    (Patch.seq (bodies.map SpotBulkBody.supplied)).apply s.get .ratingAvg =
    .number (keptRatingAvg bodies s) := by
  have hvalues : (bodies.map SpotBulkBody.supplied).filterMap (fun p => p .ratingAvg) =
      (bodies.filterMap SpotBulkBody.ratingAvg).map .number := by
    rw [List.filterMap_map, List.map_filterMap]
    exact List.filterMap_congr fun body _ => body.supplied_ratingAvg
  rw [Patch.apply, Patch.seq_eq_getLast?, hvalues, List.getLast?_map, keptRatingAvg]
  cases (bodies.filterMap SpotBulkBody.ratingAvg).getLast? <;> rfl

theorem seq_supplied_reviewCount :
    (Patch.seq (bodies.map SpotBulkBody.supplied)).apply s.get .reviewCount =
      .integer (keptReviewCount bodies s) := by
  have hvalues : (bodies.map SpotBulkBody.supplied).filterMap (fun p => p .reviewCount) =
      (bodies.filterMap SpotBulkBody.reviewCount).map .integer := by
    rw [List.filterMap_map, List.map_filterMap]
    exact List.filterMap_congr fun body _ => body.supplied_reviewCount
  rw [Patch.apply, Patch.seq_eq_getLast?, hvalues, List.getLast?_map, keptReviewCount]
  cases (bodies.filterMap SpotBulkBody.reviewCount).getLast? <;> rfl

variable {last : SpotBulkBody} (hlast : bodies.getLast? = some last)
include hlast

theorem seq_loaded_ratingAvg :
    (Patch.seq (bodies.map fun body => body.loaded.patch)).apply s.get .ratingAvg =
      .number (last.ratingAvg.getD 0) := by
  have hvalues : (bodies.map fun body => body.loaded.patch).filterMap (fun p => p .ratingAvg) =
      bodies.map fun body => SqlValue.number (body.ratingAvg.getD 0) := by
    rw [List.filterMap_map, ← List.filterMap_eq_map]
    exact List.filterMap_congr fun body _ => body.loaded_ratingAvg
  rw [Patch.apply, Patch.seq_eq_getLast?, hvalues, List.getLast?_map, hlast]
  rfl

theorem seq_loaded_reviewCount :
    (Patch.seq (bodies.map fun body => body.loaded.patch)).apply s.get .reviewCount =
      .integer (last.reviewCount.getD 0) := by
  have hvalues : (bodies.map fun body => body.loaded.patch).filterMap (fun p => p .reviewCount) =
      bodies.map fun body => SqlValue.integer (body.reviewCount.getD 0) := by
    rw [List.filterMap_map, ← List.filterMap_eq_map]
    exact List.filterMap_congr fun body _ => body.loaded_reviewCount
  rw [Patch.apply, Patch.seq_eq_getLast?, hvalues, List.getLast?_map, hlast]
  rfl

/-- A supplied value of the last row is the last supplied value. -/
theorem getLast?_filterMap {α : Type} {f : SpotBulkBody → Option α} {v : α} (hv : f last = some v) :
    (bodies.filterMap f).getLast? = some v := by
  obtain ⟨init, rfl⟩ := List.getLast?_eq_some_iff.1 hlast
  rw [List.filterMap_append, List.filterMap_cons_some hv, List.filterMap_nil]
  exact List.getLast?_concat

/-- The worker's rows leave what the rows as sent would leave, when the ratings agree. -/
theorem seq_loaded_eq_iff :
    (Patch.seq (bodies.map fun body => body.loaded.patch)).apply s.get =
        (Patch.seq (bodies.map SpotBulkBody.supplied)).apply s.get ↔ RatingsSupplied bodies s := by
  have havg : last.ratingAvg.getD 0 = keptRatingAvg bodies s ↔
      (last.ratingAvg.isSome ∨ keptRatingAvg bodies s = 0) := by
    cases hsent : last.ratingAvg with
    | none => simp [eq_comm]
    | some v => simp [keptRatingAvg, getLast?_filterMap hlast hsent]
  have hcount : last.reviewCount.getD 0 = keptReviewCount bodies s ↔
      (last.reviewCount.isSome ∨ keptReviewCount bodies s = 0) := by
    cases hsent : last.reviewCount with
    | none => simp [eq_comm]
    | some v => simp [keptReviewCount, getLast?_filterMap hlast hsent]
  constructor
  · intro h
    have hratingAvg := congrFun h .ratingAvg
    have hreviewCount := congrFun h .reviewCount
    rw [seq_loaded_ratingAvg hlast, seq_supplied_ratingAvg, SqlValue.number.injEq] at hratingAvg
    rw [seq_loaded_reviewCount hlast, seq_supplied_reviewCount,
      SqlValue.integer.injEq] at hreviewCount
    constructor
    · intro last' hlast'
      cases hlast.symm.trans hlast'
      exact havg.1 hratingAvg
    · intro last' hlast'
      cases hlast.symm.trans hlast'
      exact hcount.1 hreviewCount
  · intro h
    funext c
    by_cases hrating : c = .ratingAvg
    · rw [hrating, seq_loaded_ratingAvg hlast, seq_supplied_ratingAvg, havg.2 (h.avg last hlast)]
    · by_cases hreviews : c = .reviewCount
      · rw [hreviews, seq_loaded_reviewCount hlast, seq_supplied_reviewCount,
          hcount.2 (h.count last hlast)]
      · have hvalues : (bodies.map fun body => body.loaded.patch).filterMap (fun p => p c) =
            (bodies.map SpotBulkBody.supplied).filterMap fun p => p c := by
          rw [List.filterMap_map, List.filterMap_map]
          exact List.filterMap_congr fun body _ => body.loaded_of_ne ⟨hrating, hreviews⟩
        rw [Patch.apply, Patch.apply, Patch.seq_eq_getLast?, Patch.seq_eq_getLast?, hvalues]

end Ratings

/-! ## Jobs -/

/-- The worker's rows that match the spot come from the matching rows as sent. -/
theorem matchingRows_loaded (s : Spot) (bodies : List SpotBulkBody) :
    matchingRows s (bodies.map SpotBulkBody.loaded) =
      (matchingBodies s bodies).map SpotBulkBody.loaded :=
  List.filter_map ..

theorem some_of_matchingBodies {s : Spot} {bodies : List SpotBulkBody} {body : SpotBulkBody}
    (h : body ∈ matchingBodies s bodies) : s.source.isSome ∧ s.externalId.isSome := by
  have hmatch := (List.mem_filter.1 h).2
  simp only [SpotBulkRow.matchesSpot, Bool.and_eq_true, beq_iff_eq] at hmatch
  obtain ⟨⟨⟨hsource, hexternal⟩, heq⟩, heq'⟩ := hmatch
  exact ⟨heq ▸ hsource, heq' ▸ hexternal⟩

/-- After a job of spots whose rows all went through, a spot that matches some of the rows as sent
has kept the columns that they do not supply, and has the last value of the others, exactly when the
last of them supplies the rating columns or these are to be zero. -/
theorem field_frame_iff (cfg : Settings) (be : Backend) {x : JobRun} {s s' : State Unit} {job : Job}
    {bodies : List SpotBulkBody} {uid : String} {spot : Spot} (hs : Between s)
    (hunique : UniqueSources s.db) (hjob : s.db.jobs.find? x.uid = some job)
    (hpayload : job.payload = .spots ⟨false, bodies.map SpotBulkBody.loaded⟩)
    (hrun : x.Processed cfg be s s') (happlied : SaysApplied x.uid s'.db)
    (hspot : s.db.spots.find? uid = some spot) (hmatch : matchingBodies spot bodies ≠ []) :
    ∃ spot', s'.db.spots.find? uid = some spot' ∧
      (FieldFrame (matchingBodies spot bodies) spot spot' ↔
        RatingsSupplied (matchingBodies spot bodies) spot) := by
  obtain ⟨hfail, -⟩ := (hrun.spots_kept_iff hs hjob hpayload).1 happlied
  have hrows := (hrun.same_rows hs hjob).spots
  have htables : payloadTables be x.now x.newUid job.payload s.db =
      (spotRow be x.now x.newUid).tablesAfter 0 (bodies.map SpotBulkBody.loaded) s.db := by
    rw [hpayload]
    exact if_pos ⟨hfail, rfl⟩
  obtain ⟨hmem, rfl⟩ := Table.find?_eq_some.1 hspot
  obtain ⟨spot', hfind, hget⟩ := find?_tablesAfter hunique hfail hmem
  obtain ⟨body, hbody⟩ := List.exists_mem_of_ne_nil _ hmatch
  have hsome := some_of_matchingBodies hbody
  rw [patchFor_spotEntries hsome, matchingRows_loaded, List.map_map] at hget
  refine ⟨spot', by rw [hrows, htables]; exact hfind, ?_⟩
  -- no row sets the time of the last update
  have hupdated : spot'.updatedAt = spot.updatedAt := by
    have htime := nullable_timestamp_injective
    apply htime
    show spot'.get .updatedAt = spot.get .updatedAt
    rw [hget]
    apply Patch.apply_of_none
    apply Patch.seq_eq_none_iff.2
    intro p hp
    obtain ⟨body, -, rfl⟩ := List.mem_map.1 hp
    exact body.loaded.patch_of_fixed (by simp [SpotBulkRow.Fixed])
  cases hlast : (matchingBodies spot bodies).getLast? with
  | none => exact absurd (List.getLast?_eq_none_iff.1 hlast) hmatch
  | some last =>
      rw [fieldFrame_iff hupdated, hget]
      exact seq_loaded_eq_iff hlast

namespace Sample

/-- A spot with an upsert key, and the aggregates of its reviews. -/
def reviewed : Spot :=
  { spot "s" with source := some "seed", externalId := some "e", ratingAvg := 8, reviewCount := 3 }

theorem all_isBulkField_nil : ([] : List SpotAttr).all SpotAttr.isBulkField = true := rfl

theorem nodup_key_nil : (([] : List SpotAttr).map SpotAttr.key).Nodup := List.nodup_nil

/-- A row with a new title, and one with the ratings, too. -/
def retitled : SpotBulkBody :=
  { title := "new"
    source := some "seed"
    externalId := some "e"
    fields := []
    editable := all_isBulkField_nil
    once := nodup_key_nil }

def rerated : SpotBulkBody := { retitled with ratingAvg := some 9, reviewCount := some 4 }

/-- A running job of one row. -/
def loadJob (body : SpotBulkBody) : Job :=
  { runningJob with payload := .spots ⟨false, [body].map SpotBulkBody.loaded⟩ }

/-- The job, and the spot that its row matches. -/
def loading (body : SpotBulkBody) : Db :=
  { Db.empty with
    spots := ⟨[reviewed], List.nodup_singleton _⟩
    jobs := ⟨[loadJob body], List.nodup_singleton _⟩ }

theorem uniqueSources_loading (body : SpotBulkBody) : UniqueSources (loading body) := by
  intro s hs t ht _ _ _ _
  rw [List.mem_singleton.1 hs, List.mem_singleton.1 ht]

/-- The outcome of the job, and the columns of the spot that concern the ratings. -/
def outcome (s : State Unit) : Option (JobStatus × Option JobResult) × Option (ℚ × ℤ) :=
  ((s.db.jobs.find? "j").map fun j => (j.status, j.result),
    (s.db.spots.find? "s").map fun s => (s.ratingAvg, s.reviewCount))

theorem saysApplied_of_outcome {s' : State Unit} {ratings : Option (ℚ × ℤ)}
    (houtcome : outcome s' = (some (.succeeded, some (.bulk ⟨1, 0, false, []⟩)), ratings)) :
    SaysApplied "j" s'.db := by
  have hjob := congrArg Prod.fst houtcome
  obtain ⟨job, hfound, hfields⟩ := Option.map_eq_some_iff.1 hjob
  cases hfields' : job.status <;> simp [hfields'] at hfields
  exact ⟨job, _, hfound, hfields', hfields, rfl, rfl⟩

end Sample

/-- A row that supplies neither rating takes the spot's away. -/
theorem field_frame_retitled : ∃ s' : State Unit,
    Sample.jobRun.Processed Sample.settings Sample.backend
      (World.fresh (Sample.loading Sample.retitled)) s' ∧
    SaysApplied "j" s'.db ∧ matchingBodies Sample.reviewed [Sample.retitled] = [Sample.retitled] ∧
    ∀ spot', s'.db.spots.find? "s" = some spot' →
      ¬FieldFrame [Sample.retitled] Sample.reviewed spot' := by
  have hrun : (Sample.afterJob (Sample.loading Sample.retitled)).map Sample.outcome =
      some (some (.succeeded, some (.bulk ⟨1, 0, false, []⟩)), some (0, 0)) := by
    decide +kernel
  obtain ⟨s', hs', houtcome⟩ := Option.map_eq_some_iff.1 hrun
  have hprocessed := Sample.processed_of_afterJob hs'
  have happlied := Sample.saysApplied_of_outcome houtcome
  refine ⟨s', hprocessed, happlied, rfl, fun spot' hspot' hframe => ?_⟩
  have hratings := congrArg Prod.snd houtcome
  simp only [Sample.outcome, hspot', Option.map_some, Option.some.injEq, Prod.mk.injEq] at hratings
  -- the row does not supply `rating_avg`, so it should still be 8
  have hkept := hframe.kept .ratingAvg (by decide)
      (by simp [SpotBulkBody.supplied_ratingAvg, Sample.retitled])
  have hvalue : spot'.ratingAvg = Sample.reviewed.ratingAvg := SqlValue.number.inj hkept
  rw [hratings.1] at hvalue
  revert hvalue
  decide

/-- A row that supplies both keeps the frame. -/
theorem field_frame_rerated : ∃ (s' : State Unit) (spot' : Spot),
    s'.db.spots.find? "s" = some spot' ∧
    FieldFrame (matchingBodies Sample.reviewed [Sample.rerated]) Sample.reviewed spot' := by
  have hrun : (Sample.afterJob (Sample.loading Sample.rerated)).map Sample.outcome =
      some (some (.succeeded, some (.bulk ⟨1, 0, false, []⟩)), some (9, 4)) := by
    decide +kernel
  obtain ⟨s', hs', houtcome⟩ := Option.map_eq_some_iff.1 hrun
  have hprocessed := Sample.processed_of_afterJob hs'
  have happlied := Sample.saysApplied_of_outcome houtcome
  have hstart : Between (World.fresh (Sample.loading Sample.rerated) : State Unit) := rfl
  have hjob : (Sample.loading Sample.rerated).jobs.find? Sample.jobRun.uid =
      some (Sample.loadJob Sample.rerated) := rfl
  have hspot : (Sample.loading Sample.rerated).spots.find? "s" = some Sample.reviewed := rfl
  have hmatch : matchingBodies Sample.reviewed [Sample.rerated] ≠ [] := List.cons_ne_nil _ _
  obtain ⟨spot', hfind, hiff⟩ := field_frame_iff Sample.settings Sample.backend hstart
    (Sample.uniqueSources_loading Sample.rerated) hjob rfl hprocessed happlied hspot hmatch
  refine ⟨s', spot', hfind, hiff.2 ⟨?_, ?_⟩⟩
  · intro last hlast
    cases hlast
    exact .inl rfl
  · intro last hlast
    cases hlast
    exact .inl rfl

end Vivac
