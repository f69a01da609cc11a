import Vivac.Core.Cache
import Vivac.Core.Region
import Mathlib.Data.Prod.Lex
import Mathlib.Data.String.Basic

/-!
# Spot queries

The public reads of `crud/spot.py`: one filter for list, search, map, count and
detail, and the keyset cursors of list and search.
-/

set_option autoImplicit false

namespace Vivac

open Lib App

/-- `count_spots` stops counting here. -/
def totalCap : ℕ := 10000

/-- The largest map answer. -/
def mapLimitMax : ℕ := 8000

/-- The filters of an explore request. -/
structure ExploreFilter where
  category : Option (List String) := none
  regionProvince : Option String := none
  bbox : Option BBox := none

/-- `if q and q.strip()`. -/
def nonblank (q : Option String) : Bool :=
  match q with
  | some q => !(Py.strip Py.isSpace q.toList).isEmpty
  | none => false

/-- `if value`, for an optional string. -/
def truthy (v : Option String) : Bool :=
  match v with
  | some v => v ≠ ""
  | none => false

namespace Spot

/-- `Spot.category && values`; a null category overlaps nothing. -/
def overlaps (s : Spot) (values : List String) : Bool :=
  match s.category with
  | some cs => cs.any fun c => c ∈ values
  | none => false

end Spot

/-- The condition on the category: none for a missing or empty list. -/
def categoryFilter (category : Option (List String)) (s : Spot) : Bool :=
  match category with
  | some (v :: vs) => s.overlaps (v :: vs)
  | _ => true

/-- The condition on the box. -/
def bboxFilter (bbox : Option BBox) (s : Spot) : Bool :=
  match bbox with
  | some b => b.contains s.latitude s.longitude
  | none => true

/-- The condition on the province: none for a missing or empty value; a value outside
the whitelist is refused. -/
def regionFilter (region : Option String) : Except Exc (Spot → Bool) :=
  match region with
  | some r =>
    if r = "" then .ok fun _ => true
    else if rawNamesForRegionFilter r = [] then
      .error (.app .validationError ("Unknown region_province: " ++ r))
    else .ok fun s =>
      match s.regionProvince with
      | some p => p ∈ rawNamesForRegionFilter r
      | none => false
  | none => .ok fun _ => true

section

variable (cfg : Settings) (be : Backend)

/-- `_apply_explore_filters`. -/
def applyExploreFilters (flt : ExploreFilter) (requireCoordinates : Option Bool := none) :
    Except Exc (Spot → Bool) :=
  (regionFilter flt.regionProvince).map fun inRegion s =>
    s.live &&
      (!(requireCoordinates.getD cfg.exploreRequireCoordinates) || s.hasCoordinates) &&
      categoryFilter flt.category s && inRegion s && bboxFilter flt.bbox s

/-- The fingerprint of the box a cursor was issued for. -/
def scopeToken (bbox : Option BBox) : String :=
  match bbox with
  | none => ""
  | some b => String.ofList ((be.sha256 b.fixedText).toList.take 12)

def rejectScopeMismatch (cursorScope scope : String) : Except Exc Unit :=
  if cursorScope ≠ scope then
    .error (.app .cursorScopeMismatch
      "Cursor was issued for a different bbox — discard it and re-query")
  else .ok ()

/-- `cursor.rpartition(":")`: what is before and after the last colon. -/
def rpartitionColon (cursor : String) : String × String :=
  let after := (cursor.toList.reverse.takeWhile fun c => c != ':').reverse
  let before := (cursor.toList.reverse.dropWhile fun c => c != ':').tail.reverse
  (String.ofList before, String.ofList after)

/-- `ORDER BY uid`. -/
def orderByUid (spots : List Spot) : List Spot := spots.insertionSort fun a b => a.uid ≤ b.uid

/-- The last element; Python raises `IndexError` on an empty list. -/
def lastOf {α : Type} (xs : List α) : Except Exc α :=
  match xs.getLast? with
  | some x => .ok x
  | none => .error .index

/-- A page of the public list, ordered by uid. The cursor is `{scope}:{uid}`. -/
def listSpots (cursor : Option String) (limit : ℕ) (flt : ExploreFilter) :
    App (List Spot × Option String × Bool) := do
  let scope := scopeToken be flt.bbox
  let shown ← Prog.ofExcept (applyExploreFilters cfg flt)
  let after : Spot → Bool ← match cursor with
    | some c =>
      if c = "" then pure fun _ => true
      else do
        let (cursorScope, lastUid) := rpartitionColon c
        Prog.ofExcept (rejectScopeMismatch cursorScope scope)
        pure fun s => lastUid < s.uid
    | none => pure fun _ => true
  let spots ← select fun d =>
    (orderByUid (d.spots.select fun s => shown s && after s)).take (limit + 1)
  if limit < spots.length then do
    let last ← Prog.ofExcept (lastOf (spots.take limit))
    return (spots.take limit, some (scope ++ ":" ++ last.uid), true)
  else
    return (spots, none, false)

/-- The match condition of a search; a blank query has none. -/
def matchFilter (query : Option String) (s : Spot) : Bool :=
  match query with
  | some q => if nonblank (some q) then be.searchMatch s q else true
  | none => true

/-- The number of matching spots up to the cap, and whether it was reached. -/
def countSpots (query : Option String) (flt : ExploreFilter) : App (ℕ × Bool) := do
  let shown ← Prog.ofExcept (applyExploreFilters cfg flt)
  let total ← select fun d =>
    ((d.spots.select fun s => shown s && matchFilter be query s).take (totalCap + 1)).length
  if totalCap < total then
    return (totalCap, true)
  else
    return (total, false)

/-- The map pins: always with coordinates, ordered by uid, cut at the limit. -/
def listSpotsMap (query : Option String) (flt : ExploreFilter) (limit : ℕ := mapLimitMax) :
    App (List Spot × Bool) := do
  let shown ← Prog.ofExcept (applyExploreFilters cfg flt (some true))
  let spots ← select fun d =>
    (orderByUid (d.spots.select fun s => shown s && matchFilter be query s)).take (limit + 1)
  return (spots.take limit, limit < spots.length)

/-! ## Search -/

/-- `_encode_search_cursor`. -/
def encodeSearchCursor (score ratingAvg : ℚ) (uid scope : String) : String :=
  be.b64encode (be.jsonDumps (.obj
    [("r", .float (.fin score)), ("v", .float (.fin ratingAvg)), ("u", .str uid),
      ("s", .str scope)]))

/-- `str(value)`. -/
def strOf (v : Json) : String :=
  match v with
  | .str s => s
  | v => be.jsonStr v

/-- The fields of a search cursor's payload. -/
def searchCursorFields (payload : Json) :
    Except JsonFault (PyFloat × PyFloat × String × String) := do
  let r ← (← payload.subscript "r").toFloat
  let v ← (← payload.subscript "v").toFloat
  let u ← payload.subscript "u"
  let s ← payload.getD "s" (.str "")
  return (r, v, strOf be u, strOf be s)

/-- What `except (ValueError, KeyError, TypeError)` makes of a cursor's failure. -/
def cursorFault (message : String) : JsonFault → Exc
  | .overflow => .overflow
  | _ => .app .validationError message

/-- `json.loads(base64.urlsafe_b64decode(cursor.encode()))`. -/
def loadCursor (cursor : String) : Except JsonFault Json :=
  match (be.b64decode cursor).bind be.jsonLoads with
  | some payload => .ok payload
  | none => .error .value

/-- `_decode_search_cursor`. -/
def decodeSearchCursor (cursor : String) : Except Exc (PyFloat × PyFloat × String × String) :=
  ((loadCursor be cursor).bind (searchCursorFields be)).mapError
    (cursorFault "Invalid cursor for search results")

/-- How a stored double compares with a parameter; PostgreSQL puts nan above all. -/
def compareDouble (q : ℚ) : PyFloat → Ordering
  | .fin x => if q < x.value then .lt else if q = x.value then .eq else .gt
  | .inf negative => if negative then .gt else .lt
  | .nan => .lt

/-- `tuple_(score, rating_avg, uid) < tuple_(last_score, last_rating_avg, last_uid)`. -/
def belowCursor (q : String) (last : PyFloat × PyFloat × String) (s : Spot) : Bool :=
  match compareDouble (be.searchScore s q) last.1 with
  | .lt => true
  | .gt => false
  | .eq =>
    match compareDouble s.ratingAvg last.2.1 with
    | .lt => true
    | .gt => false
    | .eq => s.uid < last.2.2

/-- The sort key of a search: score, then rating, then uid. -/
def searchKey (q : String) (s : Spot) : ℚ ×ₗ ℚ ×ₗ String :=
  toLex (be.searchScore s q, toLex (s.ratingAvg, s.uid))

/-- `ORDER BY score DESC, rating_avg DESC, uid DESC`. -/
def orderBySearch (q : String) (spots : List Spot) : List Spot :=
  spots.insertionSort fun a b => searchKey be q b ≤ searchKey be q a

/-- A page of search results, best first. -/
def searchSpots (query : String) (flt : ExploreFilter) (cursor : Option String) (limit : ℕ) :
    App (List Spot × Option String × Bool) := do
  let scope := scopeToken be flt.bbox
  let shown ← Prog.ofExcept (applyExploreFilters cfg flt)
  let below : Spot → Bool ← match cursor with
    | some c =>
      if c = "" then pure fun _ => true
      else do
        let (lastScore, lastRating, lastUid, cursorScope) ←
          Prog.ofExcept (decodeSearchCursor be c)
        Prog.ofExcept (rejectScopeMismatch cursorScope scope)
        pure (belowCursor be query (lastScore, lastRating, lastUid))
    | none => pure fun _ => true
  let rows ← select fun d =>
    (orderBySearch be query
      (d.spots.select fun s => shown s && be.searchMatch s query && below s)).take (limit + 1)
  if limit < rows.length then do
    let last ← Prog.ofExcept (lastOf (rows.take limit))
    return (rows.take limit,
      some (encodeSearchCursor be (be.searchScore last query) last.ratingAvg last.uid scope), true)
  else
    return (rows, none, false)

/-- One spot; the public paths see only what the explore filter lets through. -/
def getSpotByUid (uid : String) (publishedOnly : Bool := false) : App (Option Spot) := do
  let shown ← if publishedOnly then Prog.ofExcept (applyExploreFilters cfg {})
      else pure fun _ => true
  select fun d => (d.spots.find? uid).filter shown

end

end Vivac
