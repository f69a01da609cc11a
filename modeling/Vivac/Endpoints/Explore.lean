import Vivac.Crud.SpotImage

/-!
# The explore endpoints

`api/v1/endpoints/explore.py`. List, map and detail read a version, probe the cache
under it, and on a miss query the database and store the answer under the version
they read at the start.
-/

set_option autoImplicit false

namespace Vivac

open Lib App

/-- The query of `GET /spots`; the page size is validated. -/
structure ListRequest where
  q : Option String := none
  category : Option (List String) := none
  regionProvince : Option String := none
  bbox : Option String := none
  cursor : Option String := none
  limit : ℕ := 20
  limit_ge : 1 ≤ limit := by decide
  limit_le : limit ≤ 50 := by decide

/-- The query of `GET /spots/map`; the limit is validated. -/
structure MapRequest where
  q : Option String := none
  category : Option (List String) := none
  regionProvince : Option String := none
  bbox : Option String := none
  limit : ℕ := mapLimitMax
  limit_ge : 1 ≤ limit := by decide
  limit_le : limit ≤ mapLimitMax := by decide

/-- `parse_bbox(bbox) if bbox else None`. -/
def parseOptionalBbox (bbox : Option String) : Except Exc (Option BBox) :=
  match bbox with
  | some b => if b = "" then .ok none else (parseBbox b).map some
  | none => .ok none

namespace ListRequest

/-- The parameters the cache key is made of. -/
def params (req : ListRequest) : List (String × Cache.Param) :=
  [("q", .text req.q), ("category", .list req.category),
    ("region_province", .text req.regionProvince), ("bbox", .text req.bbox),
    ("cursor", .text req.cursor), ("limit", .int req.limit)]

end ListRequest

namespace MapRequest

/-- The parameters the cache key is made of. -/
def params (req : MapRequest) : List (String × Cache.Param) :=
  [("kind", .text (some "map")), ("q", .text req.q), ("category", .list req.category),
    ("region_province", .text req.regionProvince), ("bbox", .text req.bbox),
    ("limit", .int req.limit)]

end MapRequest

namespace Explore

variable (cfg : Settings) (be : Backend)

/-- `_resolve_thumbnail_url`. -/
def resolveThumbnailUrl (thumbnails : List (String × SpotImage)) (uid : String) : Option String :=
  (thumbnails.lookup uid).map fun image => be.resolveUrl image.s3Key image.isPublic

/-- The list item of a spot. -/
def toListItem (thumbnails : List (String × SpotImage)) (s : Spot) : SpotListItem where
  uid := s.uid
  title := s.title
  trustTier := s.trustTier
  thumbnailUrl := resolveThumbnailUrl be thumbnails s.uid
  regionShort := abbreviateSido s.regionProvince
  category := s.category
  latitude := s.latitude
  longitude := s.longitude

/-- The database queries behind a list body. -/
def listBody (req : ListRequest) (flt : ExploreFilter) : App SpotListResponse := do
  let (spots, nextCursor, hasMore) ←
    if nonblank req.q then searchSpots cfg be (req.q.getD "") flt req.cursor req.limit
    else Vivac.listSpots cfg be req.cursor req.limit flt
  let (total, totalCapped) ← countSpots cfg be req.q flt
  let thumbnails ← getThumbnailsBySpots (spots.map Spot.uid)
  return ⟨spots.map (toListItem be thumbnails), nextCursor, hasMore, total, totalCapped⟩

/-- `GET /spots`. -/
def listSpots (req : ListRequest) : App Reply := do
  let parsedBbox ← Prog.ofExcept (parseOptionalBbox req.bbox)
  let cacheKey ← Cache.makeSpotsListKey cfg be req.params
  match ← Cache.getCached cfg cacheKey with
  | some cached => return cached
  | none => do
    let response ← listBody cfg be req
      { category := req.category, regionProvince := req.regionProvince, bbox := parsedBbox }
    Cache.setCached cfg cacheKey (.list response)
    return .inr (.list response)

/-- The map pin of a spot. -/
def toMapItem (s : Spot) : SpotMapItem := ⟨s.uid, s.latitude, s.longitude, s.trustTier⟩

/-- The database query behind a map body. -/
def mapBody (req : MapRequest) (flt : ExploreFilter) : App SpotMapResponse := do
  let (spots, truncated) ← listSpotsMap cfg be req.q flt req.limit
  return ⟨spots.map toMapItem, truncated⟩

/-- `GET /spots/map`. -/
def listSpotsForMap (req : MapRequest) : App Reply := do
  let parsedBbox ← Prog.ofExcept (parseOptionalBbox req.bbox)
  let cacheKey ← Cache.makeSpotsListKey cfg be req.params
  match ← Cache.getCached cfg cacheKey with
  | some cached => return cached
  | none => do
    let response ← mapBody cfg be req
      { category := req.category, regionProvince := req.regionProvince, bbox := parsedBbox }
    Cache.setCached cfg cacheKey (.map response)
    return .inr (.map response)

/-- The answer to a uid that names no public spot. -/
def spotNotFound : Exc := .app .spotNotFound "Spot not found"

/-- The database queries behind a detail body. -/
def detailBody (uid : String) : App SpotDetail := do
  match ← getSpotByUid cfg uid true with
  | none => .raise spotNotFound
  | some spot => do
    let thumbnails ← getThumbnailsBySpots [uid]
    return { SpotDetail.modelValidate spot with imageUrl := resolveThumbnailUrl be thumbnails uid }

/-- `GET /spots/{uid}`. -/
def getSpot (uid : String) : App Reply := do
  let cacheKey ← Cache.spotDetailKey cfg uid
  match ← Cache.getCached cfg cacheKey with
  | some cached => return cached
  | none => do
    let detail ← detailBody cfg be uid
    Cache.setCached cfg cacheKey (.detail detail)
    return .inr (.detail detail)

end Explore

end Vivac
