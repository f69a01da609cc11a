import Vivac.Lib.Patches
import Vivac.Models.Records
import Mathlib.Logic.Function.Basic

/-!
# Columns

A row seen as a value for each column: what audit entries, update dictionaries and `SET` lists
name. The columns determine the row (`Spot.get_injective`), and setting the pairs of a dictionary
patches them (`SpotAttr.get_setAll`).
-/

set_option autoImplicit false

namespace Vivac

open Lib

/-- A value of a column. -/
inductive SqlValue where
  | null
  | text (v : String)
  | number (v : ℚ)
  | integer (v : ℤ)
  | boolean (v : Bool)
  | texts (v : List String)
  | timestamp (v : Timestamp)
  deriving DecidableEq

/-- A nullable value. -/
def SqlValue.nullable {α : Type} (f : α → SqlValue) : Option α → SqlValue
  | some v => f v
  | none => .null

/-- The columns of `spots`, without the generated `search_vector`. -/
inductive SpotColumn where
  | uid
  | source
  | externalId
  | title
  | address
  | addressDetail
  | regionProvince
  | regionCity
  | postalCode
  | phone
  | description
  | tagline
  | latitude
  | longitude
  | altitude
  | unitCount
  | isFeeRequired
  | isPetAllowed
  | petPolicy
  | hasEquipmentRental
  | themes
  | firePitType
  | amenities
  | nearbyFacilities
  | campSightType
  | ratingAvg
  | reviewCount
  | pipelineStatus
  | trustTier
  | lastVerifiedAt
  | websiteUrl
  | bookingUrl
  | features
  | category
  | totalAreaM2
  | hasLiabilityInsurance
  | createdAt
  | updatedAt
  | deletedAt
  | assignedToUid
  deriving DecidableEq

/-- The name of the column in the database. -/
def SpotColumn.name : SpotColumn → String
  | .uid => "uid"
  | .source => "source"
  | .externalId => "external_id"
  | .title => "title"
  | .address => "address"
  | .addressDetail => "address_detail"
  | .regionProvince => "region_province"
  | .regionCity => "region_city"
  | .postalCode => "postal_code"
  | .phone => "phone"
  | .description => "description"
  | .tagline => "tagline"
  | .latitude => "latitude"
  | .longitude => "longitude"
  | .altitude => "altitude"
  | .unitCount => "unit_count"
  | .isFeeRequired => "is_fee_required"
  | .isPetAllowed => "is_pet_allowed"
  | .petPolicy => "pet_policy"
  | .hasEquipmentRental => "has_equipment_rental"
  | .themes => "themes"
  | .firePitType => "fire_pit_type"
  | .amenities => "amenities"
  | .nearbyFacilities => "nearby_facilities"
  | .campSightType => "camp_sight_type"
  | .ratingAvg => "rating_avg"
  | .reviewCount => "review_count"
  | .pipelineStatus => "pipeline_status"
  | .trustTier => "trust_tier"
  | .lastVerifiedAt => "last_verified_at"
  | .websiteUrl => "website_url"
  | .bookingUrl => "booking_url"
  | .features => "features"
  | .category => "category"
  | .totalAreaM2 => "total_area_m2"
  | .hasLiabilityInsurance => "has_liability_insurance"
  | .createdAt => "created_at"
  | .updatedAt => "updated_at"
  | .deletedAt => "deleted_at"
  | .assignedToUid => "assigned_to_uid"

namespace Spot

/-- The value of a column. -/
def get (s : Spot) : SpotColumn → SqlValue
  | .uid => .text s.uid
  | .source => .nullable .text s.source
  | .externalId => .nullable .text s.externalId
  | .title => .text s.title
  | .address => .nullable .text s.address
  | .addressDetail => .nullable .text s.addressDetail
  | .regionProvince => .nullable .text s.regionProvince
  | .regionCity => .nullable .text s.regionCity
  | .postalCode => .nullable .text s.postalCode
  | .phone => .nullable .text s.phone
  | .description => .nullable .text s.description
  | .tagline => .nullable .text s.tagline
  | .latitude => .nullable .number s.latitude
  | .longitude => .nullable .number s.longitude
  | .altitude => .nullable .number s.altitude
  | .unitCount => .nullable .integer s.unitCount
  | .isFeeRequired => .nullable .boolean s.isFeeRequired
  | .isPetAllowed => .nullable .boolean s.isPetAllowed
  | .petPolicy => .nullable .text s.petPolicy
  | .hasEquipmentRental => .nullable .texts s.hasEquipmentRental
  | .themes => .nullable .texts s.themes
  | .firePitType => .nullable .text s.firePitType
  | .amenities => .nullable .texts s.amenities
  | .nearbyFacilities => .nullable .texts s.nearbyFacilities
  | .campSightType => .nullable .text s.campSightType
  | .ratingAvg => .number s.ratingAvg
  | .reviewCount => .integer s.reviewCount
  | .pipelineStatus => .text s.pipelineStatus.value
  | .trustTier => .nullable .integer s.trustTier
  | .lastVerifiedAt => .nullable .timestamp s.lastVerifiedAt
  | .websiteUrl => .nullable .text s.websiteUrl
  | .bookingUrl => .nullable .text s.bookingUrl
  | .features => .nullable .text s.features
  | .category => .nullable .texts s.category
  | .totalAreaM2 => .nullable .number s.totalAreaM2
  | .hasLiabilityInsurance => .nullable .boolean s.hasLiabilityInsurance
  | .createdAt => .nullable .timestamp s.createdAt
  | .updatedAt => .nullable .timestamp s.updatedAt
  | .deletedAt => .nullable .timestamp s.deletedAt
  | .assignedToUid => .nullable .text s.assignedToUid

end Spot

namespace SpotAttr

/-- The column the pair sets. -/
def key : SpotAttr → SpotColumn
  | .title _ => .title
  | .address _ => .address
  | .addressDetail _ => .addressDetail
  | .regionProvince _ => .regionProvince
  | .regionCity _ => .regionCity
  | .postalCode _ => .postalCode
  | .phone _ => .phone
  | .description _ => .description
  | .tagline _ => .tagline
  | .latitude _ => .latitude
  | .longitude _ => .longitude
  | .altitude _ => .altitude
  | .unitCount _ => .unitCount
  | .isFeeRequired _ => .isFeeRequired
  | .isPetAllowed _ => .isPetAllowed
  | .petPolicy _ => .petPolicy
  | .hasEquipmentRental _ => .hasEquipmentRental
  | .themes _ => .themes
  | .firePitType _ => .firePitType
  | .amenities _ => .amenities
  | .nearbyFacilities _ => .nearbyFacilities
  | .campSightType _ => .campSightType
  | .websiteUrl _ => .websiteUrl
  | .bookingUrl _ => .bookingUrl
  | .features _ => .features
  | .category _ => .category
  | .totalAreaM2 _ => .totalAreaM2
  | .hasLiabilityInsurance _ => .hasLiabilityInsurance
  | .pipelineStatus _ => .pipelineStatus
  | .trustTier _ => .trustTier
  | .assignedToUid _ => .assignedToUid

/-- The value the pair sets. -/
def value : SpotAttr → SqlValue
  | .title v | .address v | .addressDetail v | .regionProvince v | .regionCity v
  | .postalCode v | .phone v | .description v | .tagline v | .petPolicy v | .firePitType v
  | .campSightType v | .websiteUrl v | .bookingUrl v | .features v | .assignedToUid v =>
      .nullable .text v
  | .latitude v | .longitude v | .altitude v | .totalAreaM2 v => .nullable .number v
  | .unitCount v | .trustTier v => .nullable .integer v
  | .isFeeRequired v | .isPetAllowed v | .hasLiabilityInsurance v => .nullable .boolean v
  | .hasEquipmentRental v | .themes v | .amenities v | .nearbyFacilities v | .category v =>
      .nullable .texts v
  | .pipelineStatus v => .nullable (fun v => .text v.value) v

end SpotAttr

/-! ## The columns of a spot -/

theorem SqlValue.nullable_injective {α : Type} {f : α → SqlValue} (hf : Function.Injective f)
    (hnull : ∀ a, f a ≠ .null) : Function.Injective (SqlValue.nullable f) := by
  intro a b h
  cases a with
  | none =>
      cases b with
      | none => rfl
      | some b => exact absurd h.symm (hnull b)
  | some a =>
      cases b with
      | none => exact absurd h (hnull a)
      | some b => exact congrArg some (hf h)

theorem PipelineStatus.value_injective : Function.Injective PipelineStatus.value := by
  intro a b h
  cases a <;> cases b <;> first | rfl | simp [PipelineStatus.value] at h

/-- The columns determine the spot. -/
theorem Spot.get_injective : Function.Injective Spot.get := by
  have htext := SqlValue.nullable_injective (f := .text) (fun _ _ h => by cases h; rfl) nofun
  have hnumber := SqlValue.nullable_injective (f := .number) (fun _ _ h => by cases h; rfl) nofun
  have hinteger := SqlValue.nullable_injective (f := .integer) (fun _ _ h => by cases h; rfl) nofun
  have hboolean := SqlValue.nullable_injective (f := .boolean) (fun _ _ h => by cases h; rfl) nofun
  have htexts := SqlValue.nullable_injective (f := .texts) (fun _ _ h => by cases h; rfl) nofun
  have htimestamp :=
      SqlValue.nullable_injective (f := .timestamp) (fun _ _ h => by cases h; rfl) nofun
  intro s t h
  have hc : ∀ c, s.get c = t.get c := fun c => congrFun h c
  cases s
  cases t
  rw [Spot.mk.injEq]
  exact ⟨SqlValue.text.inj (hc .uid), htext (hc .source), htext (hc .externalId),
    SqlValue.text.inj (hc .title), htext (hc .address), htext (hc .addressDetail),
    htext (hc .regionProvince), htext (hc .regionCity), htext (hc .postalCode),
    htext (hc .phone), htext (hc .description), htext (hc .tagline), hnumber (hc .latitude),
    hnumber (hc .longitude), hnumber (hc .altitude), hinteger (hc .unitCount),
    hboolean (hc .isFeeRequired), hboolean (hc .isPetAllowed), htext (hc .petPolicy),
    htexts (hc .hasEquipmentRental), htexts (hc .themes), htext (hc .firePitType),
    htexts (hc .amenities), htexts (hc .nearbyFacilities), htext (hc .campSightType),
    SqlValue.number.inj (hc .ratingAvg), SqlValue.integer.inj (hc .reviewCount),
    PipelineStatus.value_injective (SqlValue.text.inj (hc .pipelineStatus)),
    hinteger (hc .trustTier), htimestamp (hc .lastVerifiedAt), htext (hc .websiteUrl),
    htext (hc .bookingUrl), htext (hc .features), htexts (hc .category),
    hnumber (hc .totalAreaM2), hboolean (hc .hasLiabilityInsurance), htimestamp (hc .createdAt),
    htimestamp (hc .updatedAt), htimestamp (hc .deletedAt), htext (hc .assignedToUid)⟩

namespace SpotAttr

/-- Setting a pair sets its column. -/
theorem get_set {a : SpotAttr} {s s' : Spot} (h : a.set s = some s') :
    s'.get = Function.update s.get a.key a.value := by
  cases a with
  | title v =>
      obtain ⟨w, rfl, rfl⟩ := Option.map_eq_some_iff.1 h
      funext c
      cases c <;> rfl
  | pipelineStatus v =>
      obtain ⟨w, rfl, rfl⟩ := Option.map_eq_some_iff.1 h
      funext c
      cases c <;> rfl
  | _ =>
      cases h
      funext c
      cases c <;> rfl

/-- The patch of the pairs, in order. -/
def patch (as : List SpotAttr) : Patch SpotColumn SqlValue :=
  .seq (as.map fun a => .single a.key a.value)

theorem get_setAll {as : List SpotAttr} {s s' : Spot} (h : setAll as s = some s') :
    s'.get = (patch as).apply s.get := by
  induction as generalizing s with
  | nil =>
      cases h
      rfl
  | cons a as ih =>
      obtain ⟨t, ht, hrest⟩ := Option.bind_eq_some_iff.1 h
      rw [ih hrest, get_set ht, patch, patch, List.map_cons, Patch.apply_seq_cons,
        Patch.apply_single]

/-- Pairs without a null can be set. -/
theorem exists_setAll {as : List SpotAttr} (h : ∀ a ∈ as, a.isNull = false) (s : Spot) :
    ∃ s', setAll as s = some s' := by
  induction as generalizing s with
  | nil => exact ⟨s, rfl⟩
  | cons a as ih =>
      have hset : ∃ t, a.set s = some t := by
        have hnull := h a (List.mem_cons_self ..)
        cases a with
        | title v =>
            cases v with
            | none => cases hnull
            | some v => exact ⟨_, rfl⟩
        | pipelineStatus v =>
            cases v with
            | none => cases hnull
            | some v => exact ⟨_, rfl⟩
        | _ => exact ⟨_, rfl⟩
      obtain ⟨t, ht⟩ := hset
      obtain ⟨s', hs'⟩ := ih (fun b hb => h b (List.mem_cons_of_mem _ hb)) t
      exact ⟨s', by rw [setAll, ht]; exact hs'⟩

/-- The pairs of a dictionary that name a column are those with its key. -/
theorem column_eq_name (a : SpotAttr) : a.column = a.key.name := by
  cases a <;> rfl

end SpotAttr

/-! ## The columns of business info -/

/-- The columns of `spot_business_info`, but for `updated_at`. -/
inductive InfoColumn where
  | uid
  | spotUid
  | businessRegNo
  | tourismBusinessRegNo
  | businessType
  | operationType
  | operatingAgency
  | operatingStatus
  | nationalParkNo
  | nationalParkOfficeCode
  | nationalParkSerialNo
  | nationalParkCategoryCode
  | licensedAt
  | createdAt
  deriving DecidableEq

/-- The value of a column. -/
def SpotBusinessInfo.get (r : SpotBusinessInfo) : InfoColumn → SqlValue
  | .uid => .text r.uid
  | .spotUid => .text r.spotUid
  | .businessRegNo => .nullable .text r.businessRegNo
  | .tourismBusinessRegNo => .nullable .text r.tourismBusinessRegNo
  | .businessType => .nullable .text r.businessType
  | .operationType => .nullable .text r.operationType
  | .operatingAgency => .nullable .text r.operatingAgency
  | .operatingStatus => .nullable .text r.operatingStatus
  | .nationalParkNo => .nullable .integer r.nationalParkNo
  | .nationalParkOfficeCode => .nullable .text r.nationalParkOfficeCode
  | .nationalParkSerialNo => .nullable .text r.nationalParkSerialNo
  | .nationalParkCategoryCode => .nullable .text r.nationalParkCategoryCode
  | .licensedAt => .nullable .integer r.licensedAt
  | .createdAt => .nullable .timestamp r.createdAt

/-- The columns determine the business info, but for the time of its last update. -/
theorem SpotBusinessInfo.eq_of_get_eq {r r' : SpotBusinessInfo} (h : r.get = r'.get)
    (hupdated : r.updatedAt = r'.updatedAt) : r = r' := by
  have htext := SqlValue.nullable_injective (f := .text) (fun _ _ h => by cases h; rfl) nofun
  have hinteger := SqlValue.nullable_injective (f := .integer) (fun _ _ h => by cases h; rfl) nofun
  have htimestamp :=
      SqlValue.nullable_injective (f := .timestamp) (fun _ _ h => by cases h; rfl) nofun
  have hc : ∀ c, r.get c = r'.get c := fun c => congrFun h c
  cases r
  cases r'
  rw [SpotBusinessInfo.mk.injEq]
  exact ⟨SqlValue.text.inj (hc .uid), SqlValue.text.inj (hc .spotUid), htext (hc .businessRegNo),
    htext (hc .tourismBusinessRegNo), htext (hc .businessType), htext (hc .operationType),
    htext (hc .operatingAgency), htext (hc .operatingStatus), hinteger (hc .nationalParkNo),
    htext (hc .nationalParkOfficeCode), htext (hc .nationalParkSerialNo),
    htext (hc .nationalParkCategoryCode), hinteger (hc .licensedAt), htimestamp (hc .createdAt),
    hupdated⟩

namespace InfoAttr

/-- The column the pair sets. -/
def key : InfoAttr → InfoColumn
  | .businessRegNo _ => .businessRegNo
  | .tourismBusinessRegNo _ => .tourismBusinessRegNo
  | .businessType _ => .businessType
  | .operationType _ => .operationType
  | .operatingAgency _ => .operatingAgency
  | .operatingStatus _ => .operatingStatus
  | .nationalParkNo _ => .nationalParkNo
  | .nationalParkOfficeCode _ => .nationalParkOfficeCode
  | .nationalParkSerialNo _ => .nationalParkSerialNo
  | .nationalParkCategoryCode _ => .nationalParkCategoryCode
  | .licensedAt _ => .licensedAt

/-- The value the pair sets. -/
def value : InfoAttr → SqlValue
  | .businessRegNo v | .tourismBusinessRegNo v | .businessType v | .operationType v
  | .operatingAgency v | .operatingStatus v | .nationalParkOfficeCode v
  | .nationalParkSerialNo v | .nationalParkCategoryCode v => .text v
  | .nationalParkNo v | .licensedAt v => .integer v

/-- Setting a pair sets its column. -/
theorem get_set (a : InfoAttr) (r : SpotBusinessInfo) :
    (a.set r).get = Function.update r.get a.key a.value := by
  funext c
  cases a <;> cases c <;> rfl

/-- The patch of the pairs, in order. -/
def patch (as : List InfoAttr) : Patch InfoColumn SqlValue :=
  .seq (as.map fun a => .single a.key a.value)

theorem get_setAll (as : List InfoAttr) (r : SpotBusinessInfo) :
    (setAll as r).get = (patch as).apply r.get := by
  induction as generalizing r with
  | nil => rfl
  | cons a as ih =>
      show (setAll as (a.set r)).get = _
      rw [ih, get_set, patch, patch, List.map_cons, Patch.apply_seq_cons, Patch.apply_single]

/-- No pair sets a key, or the time of storage. -/
theorem patch_of_fixed (as : List InfoAttr) {c : InfoColumn}
    (hc : c = .uid ∨ c = .spotUid ∨ c = .createdAt) : patch as c = none := by
  apply Patch.seq_eq_none_iff.2
  intro p hp
  obtain ⟨a, -, rfl⟩ := List.mem_map.1 hp
  apply if_neg
  rcases hc with rfl | rfl | rfl <;> cases a <;> nofun

end InfoAttr

end Vivac
