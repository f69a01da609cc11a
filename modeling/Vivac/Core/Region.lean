import Mathlib.Data.List.Basic

/-!
# Provinces

Full and short names of the provinces, and the stored names a short name stands for.
-/

set_option autoImplicit false

namespace Vivac

/-- Full names with their short names, old and new names both. -/
def sidoAbbr : List (String × String) :=
  [("서울특별시", "서울"), ("부산광역시", "부산"), ("대구광역시", "대구"), ("인천광역시", "인천"),
    ("광주광역시", "광주"), ("대전광역시", "대전"), ("울산광역시", "울산"), ("세종특별자치시", "세종"),
    ("경기도", "경기"), ("강원도", "강원"), ("강원특별자치도", "강원"), ("충청북도", "충북"),
    ("충청남도", "충남"), ("전라북도", "전북"), ("전북특별자치도", "전북"), ("전라남도", "전남"),
    ("경상북도", "경북"), ("경상남도", "경남"), ("제주특별자치도", "제주")]

/-- The short name of a province; a name outside the table stays. -/
def abbreviateSido (regionProvince : Option String) : Option String :=
  regionProvince.map fun r => (sidoAbbr.lookup r).getD r

/-- The short names. -/
def regionProvinceWhitelist : List String := (sidoAbbr.map Prod.snd).dedup

/-- The stored names a short name stands for: itself and its full names; none for
a name outside the whitelist. -/
def rawNamesForRegionFilter (abbr : String) : List String :=
  if abbr ∈ regionProvinceWhitelist then
    abbr :: (sidoAbbr.filter fun p => p.2 == abbr).map Prod.fst
  else []

end Vivac
