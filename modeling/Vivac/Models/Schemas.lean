import Vivac.Models.Records

/-!
# Responses of the public API

The fields a response shows. A cached body is the JSON text of a response, which
stands for the response itself.
-/

set_option autoImplicit false

namespace Vivac

structure SpotListItem where
  uid : String
  title : String
  trustTier : Option ℤ
  thumbnailUrl : Option String
  regionShort : Option String
  category : Option (List String)
  latitude : Option ℚ
  longitude : Option ℚ

structure SpotListResponse where
  items : List SpotListItem
  nextCursor : Option String
  hasMore : Bool
  total : ℕ
  totalCapped : Bool

/-- A map pin; its coordinates are present. -/
structure SpotMapItem where
  uid : String
  latitude : Option ℚ
  longitude : Option ℚ
  trustTier : Option ℤ

structure SpotMapResponse where
  items : List SpotMapItem
  truncated : Bool

/-- The columns of a spot that the public detail shows. -/
structure SpotDetail where
  uid : String
  title : String
  address : Option String
  addressDetail : Option String
  websiteUrl : Option String
  trustTier : Option ℤ
  tagline : Option String
  category : Option (List String)
  themes : Option (List String)
  isFeeRequired : Option Bool
  isPetAllowed : Option Bool
  features : Option String
  campSightType : Option String
  unitCount : Option ℤ
  totalAreaM2 : Option ℚ
  firePitType : Option String
  latitude : Option ℚ
  longitude : Option ℚ
  description : Option String
  amenities : Option (List String)
  nearbyFacilities : Option (List String)
  hasEquipmentRental : Option (List String)
  phone : Option String
  bookingUrl : Option String
  imageUrl : Option String
  ratingAvg : ℚ
  reviewCount : ℤ

/-- `SpotDetail.model_validate(spot)`; a spot has no `image_url`. -/
def SpotDetail.modelValidate (s : Spot) : SpotDetail where
  uid := s.uid
  title := s.title
  address := s.address
  addressDetail := s.addressDetail
  websiteUrl := s.websiteUrl
  trustTier := s.trustTier
  tagline := s.tagline
  category := s.category
  themes := s.themes
  isFeeRequired := s.isFeeRequired
  isPetAllowed := s.isPetAllowed
  features := s.features
  campSightType := s.campSightType
  unitCount := s.unitCount
  totalAreaM2 := s.totalAreaM2
  firePitType := s.firePitType
  latitude := s.latitude
  longitude := s.longitude
  description := s.description
  amenities := s.amenities
  nearbyFacilities := s.nearbyFacilities
  hasEquipmentRental := s.hasEquipmentRental
  phone := s.phone
  bookingUrl := s.bookingUrl
  imageUrl := none
  ratingAvg := s.ratingAvg
  reviewCount := s.reviewCount

structure SpotImageOut where
  uid : String
  role : SpotImageRole
  sortOrder : ℤ
  isPublic : Bool
  url : String

structure SpotGroupSpotItem where
  uid : String
  title : String
  trustTier : Option ℤ
  thumbnailUrl : Option String
  regionShort : Option String
  category : Option (List String)
  tagline : Option String
  amenities : Option (List String)
  addedByUid : String
  addedAt : Option Timestamp

/-- A cached body. -/
inductive Body where
  | list (response : SpotListResponse)
  | map (response : SpotMapResponse)
  | detail (response : SpotDetail)

end Vivac
