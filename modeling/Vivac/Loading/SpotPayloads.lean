import Vivac.Core.Geo
import Vivac.Loading.SpotMerges

/-!
# From the request body to the row

`schemas/spot.py`. A row of a spots request is read as a `SpotBulkRow`, dumped into the job with
all its keys, and read again by the worker. The columns that a row as sent supplies
(`SpotBulkBody.supplied`) are those the worker's row sets, but for the rating columns, which have a
default (`SpotBulkBody.patch_loaded`).
-/

set_option autoImplicit false

namespace Vivac

open Lib

/-- One row of a request as sent: the keys that are there, each once. A `source` or `external_id`
that is null counts as not there; a rating that is not there is `none`. -/
structure SpotBulkBody where
  title : String
  source : Option String := none
  externalId : Option String := none
  ratingAvg : Option ℚ := none
  reviewCount : Option ℤ := none
  fields : List SpotAttr := []
  editable : fields.all SpotAttr.isBulkField = true := by rfl
  once : (fields.map SpotAttr.key).Nodup := by simp

namespace SpotBulkBody

/-- `SpotBulkRow.model_validate`, with the schema's defaults. -/
def validate (body : SpotBulkBody) : SpotBulkRow where
  title := body.title
  source := body.source
  externalId := body.externalId
  ratingAvg := body.ratingAvg.getD 0
  reviewCount := body.reviewCount.getD 0
  fields := body.fields
  editable := body.editable

/-- The columns the row supplies: sent, and not null. -/
def supplied (body : SpotBulkBody) : Patch SpotColumn SqlValue :=
  (SpotAttr.patch (.title (some body.title) :: body.fields.filter fun a => !a.isNull)).andThen
    (.seq ((body.ratingAvg.map fun v => .single .ratingAvg (.number v)).toList ++
      (body.reviewCount.map fun v => .single .reviewCount (.integer v)).toList))

end SpotBulkBody

/-- The editable columns beside the title, all null. -/
def SpotAttr.bulkFields : List SpotAttr :=
  [.address none, .addressDetail none, .regionProvince none, .regionCity none, .postalCode none,
    .phone none, .description none, .tagline none, .latitude none, .longitude none, .altitude none,
    .unitCount none, .isFeeRequired none, .isPetAllowed none, .petPolicy none,
    .hasEquipmentRental none, .themes none, .firePitType none, .amenities none,
    .nearbyFacilities none, .campSightType none, .websiteUrl none, .bookingUrl none, .features none,
    .category none, .totalAreaM2 none, .hasLiabilityInsurance none, .pipelineStatus none,
    .trustTier none]

namespace SpotBulkRow

/-- What the dump has for a column: the row's pair, or a null. -/
def dumped (row : SpotBulkRow) (null : SpotAttr) : SpotAttr :=
  (row.fields.find? fun a => a.key = null.key).getD null

theorem key_dumped (row : SpotBulkRow) (null : SpotAttr) : (row.dumped null).key = null.key := by
  unfold dumped
  cases h : row.fields.find? fun a => a.key = null.key with
  | none => rfl
  | some a => simpa using List.find?_some h

theorem isBulkField_iff_mem (a : SpotAttr) :
    a.isBulkField = true ↔ a.key ∈ SpotAttr.bulkFields.map SpotAttr.key := by
  cases a <;> simp [SpotAttr.isBulkField, SpotAttr.key, SpotAttr.bulkFields]

/-- `row.model_dump(mode="json")`: all keys. -/
def modelDump (row : SpotBulkRow) : SpotBulkBody where
  title := row.title
  source := row.source
  externalId := row.externalId
  ratingAvg := some row.ratingAvg
  reviewCount := some row.reviewCount
  fields := SpotAttr.bulkFields.map row.dumped
  editable := by
    apply List.all_eq_true.2
    intro a ha
    obtain ⟨null, hnull, rfl⟩ := List.mem_map.1 ha
    rw [isBulkField_iff_mem, row.key_dumped]
    exact List.mem_map_of_mem hnull
  once := by
    have hkeys : (SpotAttr.bulkFields.map row.dumped).map SpotAttr.key =
        SpotAttr.bulkFields.map SpotAttr.key := by
      rw [List.map_map]
      exact List.map_congr_left fun null _ => row.key_dumped null
    rw [hkeys]
    decide

end SpotBulkRow

/-- The row that the worker reads from the job. -/
def SpotBulkBody.loaded (body : SpotBulkBody) : SpotBulkRow := body.validate.modelDump.validate

/-! ## What the worker's row sets -/

/-- With each key once, a column has the value of the pair that names it. -/
theorem SpotAttr.patch_eq_some_iff {as : List SpotAttr} (h : (as.map SpotAttr.key).Nodup)
    {c : SpotColumn} {v : SqlValue} :
    SpotAttr.patch as c = some v ↔ ∃ a ∈ as, a.key = c ∧ a.value = v := by
  induction as generalizing v with
  | nil => simp [SpotAttr.patch, Patch.seq]
  | cons a as ih =>
      rw [List.map_cons, List.nodup_cons] at h
      have hcons : SpotAttr.patch (a :: as) c =
          (SpotAttr.patch as c).or (Patch.single a.key a.value c) := rfl
      rw [hcons, List.exists_mem_cons_iff]
      by_cases hc : c = a.key
      · -- the later pairs name other columns
        have hnone : SpotAttr.patch as c = none := by
          rw [Option.eq_none_iff_forall_ne_some]
          intro w hw
          obtain ⟨b, hb, hkey, -⟩ := (ih h.2).1 hw
          exact h.1 (hc ▸ hkey ▸ List.mem_map_of_mem hb)
        have hno : ¬∃ b ∈ as, b.key = c ∧ b.value = v := by
          rintro ⟨b, hb, hkey, -⟩
          exact h.1 (hc ▸ hkey ▸ List.mem_map_of_mem hb)
        rw [hnone, Option.none_or, Patch.single, if_pos hc, or_iff_left hno]
        simp [hc]
      · rw [Patch.single, if_neg hc, Option.or_none, ih h.2]
        simp [Ne.symm hc]

theorem SpotAttr.nodup_written {as : List SpotAttr} (h : (as.map SpotAttr.key).Nodup) :
    ((as.filter fun a => !a.isNull).map SpotAttr.key).Nodup :=
  (List.Sublist.map _ List.filter_sublist).nodup h

/-- The row that was dumped and read again sets what the row set. -/
theorem SpotBulkBody.patch_loaded_fields (body : SpotBulkBody) :
    SpotAttr.patch (body.loaded.fields.filter fun a => !a.isNull) =
      SpotAttr.patch (body.fields.filter fun a => !a.isNull) := by
  have hsame : ∀ a : SpotAttr, a.isNull = false → (a ∈ body.loaded.fields ↔ a ∈ body.fields) := by
    intro a hnull
    show a ∈ SpotAttr.bulkFields.map body.validate.dumped ↔ _
    constructor
    · intro ha
      obtain ⟨null, hnull', rfl⟩ := List.mem_map.1 ha
      unfold SpotBulkRow.dumped at hnull ⊢
      cases hfind : body.validate.fields.find? fun a => a.key = null.key with
      | none =>
          -- a column that was not sent is dumped as null
          rw [hfind] at hnull
          have hall : ∀ b ∈ SpotAttr.bulkFields, b.isNull = true := by decide
          rw [Option.getD_none, hall null hnull'] at hnull
          cases hnull
      | some b => exact List.mem_of_find?_eq_some hfind
    · intro ha
      have hbulk := List.all_eq_true.1 body.editable a ha
      obtain ⟨null, hmem, hkey⟩ := List.mem_map.1 ((SpotBulkRow.isBulkField_iff_mem a).1 hbulk)
      apply List.mem_map.2
      refine ⟨null, hmem, ?_⟩
      unfold SpotBulkRow.dumped
      cases hfind : body.validate.fields.find? fun a => a.key = null.key with
      | none =>
          have hnot := List.find?_eq_none.1 hfind a ha
          simp [hkey] at hnot
      | some b =>
          have hb : b.key = null.key := by simpa using List.find?_some hfind
          exact List.inj_on_of_nodup_map body.once (List.mem_of_find?_eq_some hfind) ha
            (hb.trans hkey)
  have honce : (body.loaded.fields.map SpotAttr.key).Nodup := body.validate.modelDump.once
  funext c
  apply Option.ext
  intro v
  rw [SpotAttr.patch_eq_some_iff (SpotAttr.nodup_written honce),
    SpotAttr.patch_eq_some_iff (SpotAttr.nodup_written body.once)]
  apply exists_congr
  intro a
  rw [List.mem_filter, List.mem_filter]
  by_cases hnull : a.isNull = true
  · simp [hnull]
  · have hfalse : a.isNull = false := by simpa using hnull
    rw [hsame a hfalse]

/-- What the worker sets of a row that was sent: the columns it supplies, and the ratings. -/
theorem SpotBulkBody.patch_loaded (body : SpotBulkBody) : body.loaded.patch =
    (SpotAttr.patch (.title (some body.title) :: body.fields.filter fun a => !a.isNull)).andThen
      body.validate.ratings := by
  have hvalues : SpotAttr.patch body.loaded.values =
      SpotAttr.patch (.title (some body.title) :: body.fields.filter fun a => !a.isNull) := by
    show Patch.andThen _ (SpotAttr.patch (body.loaded.fields.filter fun a => !a.isNull)) = _
    rw [body.patch_loaded_fields]
    rfl
  rw [SpotBulkRow.patch, hvalues]
  rfl

end Vivac
