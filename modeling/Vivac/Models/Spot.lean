import Mathlib.Data.Rat.Defs
import Mathlib.Data.Nat.Notation

/-!
# Spots

The `spots` row, and the key/value pairs an update dictionary carries. A `float`
column is a rational, a timestamp a number of microseconds.
-/

set_option autoImplicit false

namespace Vivac

abbrev Timestamp := ℤ

/-- Pipeline status of a spot. Only `published` spots are shown by the public API. -/
inductive PipelineStatus where
  | raw
  | enriched
  | curated
  | reviewed
  | published
  | rejected
  deriving DecidableEq

def PipelineStatus.value : PipelineStatus → String
  | .raw => "RAW"
  | .enriched => "ENRICHED"
  | .curated => "CURATED"
  | .reviewed => "REVIEWED"
  | .published => "PUBLISHED"
  | .rejected => "REJECTED"

/-- A row of `spots`. The generated column `search_vector` is a function of
`title`, `tagline`, `description` and `address`. -/
structure Spot where
  uid : String
  source : Option String := none
  externalId : Option String := none
  title : String
  address : Option String := none
  addressDetail : Option String := none
  regionProvince : Option String := none
  regionCity : Option String := none
  postalCode : Option String := none
  phone : Option String := none
  description : Option String := none
  tagline : Option String := none
  latitude : Option ℚ := none
  longitude : Option ℚ := none
  altitude : Option ℚ := none
  unitCount : Option ℤ := none
  isFeeRequired : Option Bool := none
  isPetAllowed : Option Bool := none
  petPolicy : Option String := none
  hasEquipmentRental : Option (List String) := none
  themes : Option (List String) := none
  firePitType : Option String := none
  amenities : Option (List String) := none
  nearbyFacilities : Option (List String) := none
  campSightType : Option String := none
  ratingAvg : ℚ := 0
  reviewCount : ℤ := 0
  pipelineStatus : PipelineStatus := .raw
  trustTier : Option ℤ := none
  lastVerifiedAt : Option Timestamp := none
  websiteUrl : Option String := none
  bookingUrl : Option String := none
  features : Option String := none
  category : Option (List String) := none
  totalAreaM2 : Option ℚ := none
  hasLiabilityInsurance : Option Bool := none
  createdAt : Option Timestamp := none
  updatedAt : Option Timestamp := none
  deletedAt : Option Timestamp := none
  assignedToUid : Option String := none

namespace Spot

/-- PUBLISHED and not deleted: what the public API may show. -/
def live (s : Spot) : Bool := s.pipelineStatus == .published && s.deletedAt.isNone

/-- Both coordinates are present. -/
def hasCoordinates (s : Spot) : Bool := s.latitude.isSome && s.longitude.isSome

/-- `ck_spots_trust_tier`. -/
def checkTrustTier (s : Spot) : Bool :=
  match s.trustTier with
  | some t => decide (1 ≤ t ∧ t ≤ 3)
  | none => true

end Spot

/-- One key of an update dictionary with its value; `none` is an explicit null. -/
inductive SpotAttr where
  | title (v : Option String)
  | address (v : Option String)
  | addressDetail (v : Option String)
  | regionProvince (v : Option String)
  | regionCity (v : Option String)
  | postalCode (v : Option String)
  | phone (v : Option String)
  | description (v : Option String)
  | tagline (v : Option String)
  | latitude (v : Option ℚ)
  | longitude (v : Option ℚ)
  | altitude (v : Option ℚ)
  | unitCount (v : Option ℤ)
  | isFeeRequired (v : Option Bool)
  | isPetAllowed (v : Option Bool)
  | petPolicy (v : Option String)
  | hasEquipmentRental (v : Option (List String))
  | themes (v : Option (List String))
  | firePitType (v : Option String)
  | amenities (v : Option (List String))
  | nearbyFacilities (v : Option (List String))
  | campSightType (v : Option String)
  | websiteUrl (v : Option String)
  | bookingUrl (v : Option String)
  | features (v : Option String)
  | category (v : Option (List String))
  | totalAreaM2 (v : Option ℚ)
  | hasLiabilityInsurance (v : Option Bool)
  | pipelineStatus (v : Option PipelineStatus)
  | trustTier (v : Option ℤ)
  | assignedToUid (v : Option String)

namespace SpotAttr

/-- The column the key names. -/
def column : SpotAttr → String
  | .title _ => "title"
  | .address _ => "address"
  | .addressDetail _ => "address_detail"
  | .regionProvince _ => "region_province"
  | .regionCity _ => "region_city"
  | .postalCode _ => "postal_code"
  | .phone _ => "phone"
  | .description _ => "description"
  | .tagline _ => "tagline"
  | .latitude _ => "latitude"
  | .longitude _ => "longitude"
  | .altitude _ => "altitude"
  | .unitCount _ => "unit_count"
  | .isFeeRequired _ => "is_fee_required"
  | .isPetAllowed _ => "is_pet_allowed"
  | .petPolicy _ => "pet_policy"
  | .hasEquipmentRental _ => "has_equipment_rental"
  | .themes _ => "themes"
  | .firePitType _ => "fire_pit_type"
  | .amenities _ => "amenities"
  | .nearbyFacilities _ => "nearby_facilities"
  | .campSightType _ => "camp_sight_type"
  | .websiteUrl _ => "website_url"
  | .bookingUrl _ => "booking_url"
  | .features _ => "features"
  | .category _ => "category"
  | .totalAreaM2 _ => "total_area_m2"
  | .hasLiabilityInsurance _ => "has_liability_insurance"
  | .pipelineStatus _ => "pipeline_status"
  | .trustTier _ => "trust_tier"
  | .assignedToUid _ => "assigned_to_uid"

/-- `setattr(spot, key, value)`. A null in a NOT NULL column has no row to write. -/
def set (a : SpotAttr) (s : Spot) : Option Spot :=
  match a with
  | .title v => v.map fun v => { s with title := v }
  | .address v => some { s with address := v }
  | .addressDetail v => some { s with addressDetail := v }
  | .regionProvince v => some { s with regionProvince := v }
  | .regionCity v => some { s with regionCity := v }
  | .postalCode v => some { s with postalCode := v }
  | .phone v => some { s with phone := v }
  | .description v => some { s with description := v }
  | .tagline v => some { s with tagline := v }
  | .latitude v => some { s with latitude := v }
  | .longitude v => some { s with longitude := v }
  | .altitude v => some { s with altitude := v }
  | .unitCount v => some { s with unitCount := v }
  | .isFeeRequired v => some { s with isFeeRequired := v }
  | .isPetAllowed v => some { s with isPetAllowed := v }
  | .petPolicy v => some { s with petPolicy := v }
  | .hasEquipmentRental v => some { s with hasEquipmentRental := v }
  | .themes v => some { s with themes := v }
  | .firePitType v => some { s with firePitType := v }
  | .amenities v => some { s with amenities := v }
  | .nearbyFacilities v => some { s with nearbyFacilities := v }
  | .campSightType v => some { s with campSightType := v }
  | .websiteUrl v => some { s with websiteUrl := v }
  | .bookingUrl v => some { s with bookingUrl := v }
  | .features v => some { s with features := v }
  | .category v => some { s with category := v }
  | .totalAreaM2 v => some { s with totalAreaM2 := v }
  | .hasLiabilityInsurance v => some { s with hasLiabilityInsurance := v }
  | .pipelineStatus v => v.map fun v => { s with pipelineStatus := v }
  | .trustTier v => some { s with trustTier := v }
  | .assignedToUid v => some { s with assignedToUid := v }

/-- The loaded spot already has the value, so the flush leaves the column out. -/
def unchanged (a : SpotAttr) (s : Spot) : Bool :=
  match a with
  | .title v => v == some s.title
  | .address v => v == s.address
  | .addressDetail v => v == s.addressDetail
  | .regionProvince v => v == s.regionProvince
  | .regionCity v => v == s.regionCity
  | .postalCode v => v == s.postalCode
  | .phone v => v == s.phone
  | .description v => v == s.description
  | .tagline v => v == s.tagline
  | .latitude v => v == s.latitude
  | .longitude v => v == s.longitude
  | .altitude v => v == s.altitude
  | .unitCount v => v == s.unitCount
  | .isFeeRequired v => v == s.isFeeRequired
  | .isPetAllowed v => v == s.isPetAllowed
  | .petPolicy v => v == s.petPolicy
  | .hasEquipmentRental v => v == s.hasEquipmentRental
  | .themes v => v == s.themes
  | .firePitType v => v == s.firePitType
  | .amenities v => v == s.amenities
  | .nearbyFacilities v => v == s.nearbyFacilities
  | .campSightType v => v == s.campSightType
  | .websiteUrl v => v == s.websiteUrl
  | .bookingUrl v => v == s.bookingUrl
  | .features v => v == s.features
  | .category v => v == s.category
  | .totalAreaM2 v => v == s.totalAreaM2
  | .hasLiabilityInsurance v => v == s.hasLiabilityInsurance
  | .pipelineStatus v => v == some s.pipelineStatus
  | .trustTier v => v == s.trustTier
  | .assignedToUid v => v == s.assignedToUid

/-- The value is null. -/
def isNull : SpotAttr → Bool
  | .title v | .address v | .addressDetail v | .regionProvince v | .regionCity v
  | .postalCode v | .phone v | .description v | .tagline v | .petPolicy v | .firePitType v
  | .campSightType v | .websiteUrl v | .bookingUrl v | .features v | .assignedToUid v => v.isNone
  | .latitude v | .longitude v | .altitude v | .totalAreaM2 v => v.isNone
  | .unitCount v | .trustTier v => v.isNone
  | .isFeeRequired v | .isPetAllowed v | .hasLiabilityInsurance v => v.isNone
  | .hasEquipmentRental v | .themes v | .amenities v | .nearbyFacilities v | .category v => v.isNone
  | .pipelineStatus v => v.isNone

/-- A bulk row has the key beside its title. -/
def isBulkField : SpotAttr → Bool
  | .title _ | .assignedToUid _ => false
  | _ => true

theorem uid_of_set {a : SpotAttr} {s s' : Spot} (h : a.set s = some s') : s'.uid = s.uid := by
  cases a with
  | title v | pipelineStatus v =>
    obtain ⟨w, -, rfl⟩ := Option.map_eq_some_iff.1 h
    rfl
  | _ =>
    cases h
    rfl

/-- `for key, value in data.items(): setattr(spot, key, value)`. -/
def setAll : List SpotAttr → Spot → Option Spot
  | [], s => some s
  | a :: as, s => (a.set s).bind (setAll as)

theorem uid_of_setAll {as : List SpotAttr} {s s' : Spot} (h : setAll as s = some s') :
    s'.uid = s.uid := by
  induction as generalizing s with
  | nil =>
    cases h
    rfl
  | cons a as ih =>
    obtain ⟨t, ht, hs'⟩ := Option.bind_eq_some_iff.1 h
    rw [ih hs', uid_of_set ht]

end SpotAttr

end Vivac
