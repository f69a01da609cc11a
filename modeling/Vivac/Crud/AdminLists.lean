import Vivac.Crud.SpotGroup
import Vivac.Lib.Evaluation
import Vivac.Lib.OffsetPages
import Mathlib.Data.List.Dedup
import Mathlib.Data.List.Infix

/-!
# Lists with an offset

`list_spots_admin` of `crud/spot.py`, and `list_groups_for_user` and `list_groups_admin` of
`crud/spot_group.py`. Each sorts by one column. The database lists rows with equal columns as it
likes, so a list takes the arrangement its query has found.
-/

set_option autoImplicit false

namespace Vivac

open Lib App

/-- The text functions of the database: its collation, and lower case. -/
structure TextRules where
  order : RowOrder String
  lower : String → String

/-- `column.icontains(text, autoescape=True)`. -/
def TextRules.icontains (texts : TextRules) (value text : String) : Bool :=
  (texts.lower text).toList <:+: (texts.lower value).toList

/-- `column.desc() if order == "desc" else column.asc()`. -/
def directed {α : Type} (order : String) (column : RowOrder α) : RowOrder α :=
  if order = "desc" then column.reverse else column

/-- A timestamp column, which may be null. -/
def byTime : RowOrder (Option Timestamp) := (RowOrder.ofLinear Timestamp).nullsLast

/-- `if value: query.where(..)`. -/
def whenGiven (value : Option String) (condition : String → Bool) : Bool :=
  match value with
  | some v => v == "" || condition v
  | none => true

/-! ## Spots -/

section Spots

variable (texts : TextRules)

/-- `_ADMIN_SORTABLE`. -/
def adminSortable : List (String × RowOrder Spot) :=
  [("uid", texts.order.on Spot.uid),
    ("title", texts.order.on Spot.title),
    ("region_province", texts.order.nullsLast.on Spot.regionProvince),
    ("region_city", texts.order.nullsLast.on Spot.regionCity),
    ("rating_avg", (RowOrder.ofLinear ℚ).on Spot.ratingAvg),
    ("review_count", (RowOrder.ofLinear ℤ).on Spot.reviewCount),
    ("created_at", byTime.on Spot.createdAt),
    ("updated_at", byTime.on Spot.updatedAt)]

/-- The order of a list; a column that is not sortable is the uid. -/
def adminOrder (sort order : String) : RowOrder Spot :=
  directed order (((adminSortable texts).lookup sort).getD (texts.order.on Spot.uid))

/-- `_FILTERABLE`. -/
def filterable : List (String × (Spot → Option String)) :=
  [("region_province", Spot.regionProvince),
    ("source", Spot.source),
    ("pipeline_status", fun s => some s.pipelineStatus.value),
    ("assigned_to_uid", Spot.assignedToUid)]

/-- One filter; one of a field that is not filterable, or without a value, keeps every row. -/
def passesFilter (s : Spot) (filter : String × Option String) : Bool :=
  match filterable.lookup filter.1 with
  | some column => whenGiven filter.2 fun v => column s == some v
  | none => true

/-- The rows of a list. -/
def adminCondition (title : Option String) (filters : List (String × Option String))
    (includeDeleted : Bool) (s : Spot) : Bool :=
  (includeDeleted || s.deletedAt.isNone) &&
    whenGiven title (fun t => texts.icontains s.title t) &&
    filters.all fun filter => passesFilter s filter

/-- A page of the list of the console, and the number of rows on all pages. -/
def listSpotsAdmin (sort order : String) (found : (adminOrder texts sort order).Arrangement)
    (offset limit : ℕ) (title : Option String) (filters : List (String × Option String))
    (includeDeleted : Bool := false) : App (List Spot × ℕ) := do
  let condition := adminCondition texts title filters includeDeleted
  let total ← select fun d => (d.spots.select condition).length
  let items ← select fun d => ((found.run (d.spots.select condition)).drop offset).take limit
  return (items, total)

/-- What a list answers: the rows at the offset, and the number of all rows. -/
theorem evaluates_listSpotsAdmin {sort order : String}
    (found : (adminOrder texts sort order).Arrangement) (offset limit : ℕ) (title : Option String)
    (filters : List (String × Option String)) (includeDeleted : Bool) (d : Db) :
    Evaluates (listSpotsAdmin texts sort order found offset limit title filters includeDeleted) d
      (.ok (((((found.run (d.spots.select (adminCondition texts title filters includeDeleted))).drop
        offset).take limit),
          (d.spots.select (adminCondition texts title filters includeDeleted)).length), d)) :=
  Evaluates.select (Evaluates.select (.ret _ d))

end Spots

/-! ## Groups -/

/-- The places of an enum column, in the order in which its type was made. -/
def GroupVisibility.place : GroupVisibility → ℕ
  | .isPrivate => 0
  | .inviteOnly => 1
  | .isPublic => 2

def GroupVisibility.value : GroupVisibility → String
  | .isPrivate => "private"
  | .inviteOnly => "invite_only"
  | .isPublic => "public"

/-- `SELECT count(spot_uid) FROM spot_group_spots WHERE group_uid = ..`. -/
def groupSpotCount (groupUid : String) (d : Db) : ℕ :=
  (d.groupSpots.select fun g => g.groupUid == groupUid).length

/-- The order of the groups of a user: latest change first. -/
def forUserOrder : RowOrder (SpotGroup × GroupRole × ℕ) :=
  (byTime.on fun row => row.1.updatedAt).reverse

/-- The groups with the role of the user and the number of spots. -/
def groupsForUser (userUid : String) (d : Db) : List (SpotGroup × GroupRole × ℕ) :=
  (d.members.select fun m => m.userUid == userUid).filterMap fun m =>
    (d.groups.find? m.groupUid).map fun g => (g, m.role, groupSpotCount g.uid d)

/-- A page of the groups of which the user is a member. -/
def listGroupsForUser (found : forUserOrder.Arrangement) (userUid : String) (offset limit : ℕ) :
    App (List (SpotGroup × GroupRole × ℕ)) :=
  select fun d => ((found.run (groupsForUser userUid d)).drop offset).take limit

/-- `GROUP BY`: each key of the column that is among `uids`, with the number of its rows. -/
def groupedCounts (column uids : List String) : List (String × ℕ) :=
  (column.filter (· ∈ uids)).dedup.map fun uid => (uid, column.count uid)

/-- The condition on the visibility; a text that is no value of the type is refused. -/
def visibilityFilter (visibility : Option String) : Except Exc (SpotGroup → Bool) :=
  match visibility with
  | some v =>
    if v = "" then .ok fun _ => true
    else if v ∈ [GroupVisibility.isPrivate.value, GroupVisibility.inviteOnly.value,
        GroupVisibility.isPublic.value] then .ok fun g => g.visibility.value == v
    else .error (.database "DBAPIError" "invalid input value for enum group_visibility")
  | none => .ok fun _ => true

/-- The groups whose name has the text, of which the user is a member. -/
def groupCondition (texts : TextRules) (nameLike userUid : Option String) (d : Db)
    (g : SpotGroup) : Bool :=
  whenGiven nameLike (fun t => texts.icontains g.name t) &&
    whenGiven userUid fun u => (d.members.find? (g.uid, u)).isSome

namespace SpotGroup

variable (texts : TextRules)

/-- `_ADMIN_SORTABLE` of groups. -/
def adminSortable : List (String × RowOrder SpotGroup) :=
  [("uid", texts.order.on SpotGroup.uid),
    ("name", texts.order.on SpotGroup.name),
    ("visibility", (RowOrder.ofLinear ℕ).on fun g => g.visibility.place),
    ("created_at", byTime.on SpotGroup.createdAt),
    ("updated_at", byTime.on SpotGroup.updatedAt)]

def adminOrder (sort order : String) : RowOrder SpotGroup :=
  directed order (((adminSortable texts).lookup sort).getD (texts.order.on SpotGroup.uid))

end SpotGroup

/-- The rows of a list. -/
def adminGroups (texts : TextRules) (nameLike userUid : Option String) (visible : SpotGroup → Bool)
    (d : Db) : List SpotGroup :=
  d.groups.select fun g => visible g && groupCondition texts nameLike userUid d g

/-- A page of the list of the console, with the numbers of members and spots, and the number of
groups on all pages. -/
def listGroupsAdmin (texts : TextRules) (sort order : String)
    (found : (SpotGroup.adminOrder texts sort order).Arrangement) (offset limit : ℕ)
    (nameLike visibility userUid : Option String) : App (List (SpotGroup × ℕ × ℕ) × ℕ) := do
  let visible ← Prog.ofExcept (visibilityFilter visibility)
  let total ← select fun d => (adminGroups texts nameLike userUid visible d).length
  let groups ← select fun d =>
    ((found.run (adminGroups texts nameLike userUid visible d)).drop offset).take limit
  let memberCounts ← select fun d =>
    groupedCounts (d.members.rows.map SpotGroupMember.groupUid) (groups.map SpotGroup.uid)
  let spotCounts ← select fun d =>
    groupedCounts (d.groupSpots.rows.map SpotGroupSpot.groupUid) (groups.map SpotGroup.uid)
  return (groups.map fun g =>
    (g, (memberCounts.lookup g.uid).getD 0, (spotCounts.lookup g.uid).getD 0), total)

/-- A key of the column that is asked for has its number of rows, and one without rows has none. -/
theorem lookup_groupedCounts {column uids : List String} {uid : String} (h : uid ∈ uids) :
    ((groupedCounts column uids).lookup uid).getD 0 = column.count uid := by
  have hlookup : ∀ keys : List String,
      (keys.map fun u => (u, column.count u)).lookup uid =
        if uid ∈ keys then some (column.count uid) else none := by
    intro keys
    induction keys with
    | nil => rfl
    | cons u keys ih =>
        by_cases hu : uid = u
        · simp [hu]
        · have hne : (uid == u) = false := by simpa using hu
          simp [List.lookup_cons, hne, ih, hu]
  rw [groupedCounts, hlookup]
  split
  · rfl
  · rename_i hnot
    have hout : uid ∉ column := by simpa [List.mem_dedup, h] using hnot
    rw [List.count_eq_zero.2 hout]
    rfl

/-- The item of a group in the list of the console. -/
def toAdminItem (d : Db) (g : SpotGroup) : SpotGroup × ℕ × ℕ :=
  (g, (d.members.rows.map SpotGroupMember.groupUid).count g.uid, groupSpotCount g.uid d)

theorem count_groupSpots (d : Db) (groupUid : String) :
    (d.groupSpots.rows.map SpotGroupSpot.groupUid).count groupUid = groupSpotCount groupUid d := by
  rw [groupSpotCount, Table.select, ← List.countP_eq_length_filter, List.count, List.countP_map]
  rfl

/-- What a list answers, unless the visibility is refused. -/
theorem evaluates_listGroupsAdmin (texts : TextRules) {sort order : String}
    (found : (SpotGroup.adminOrder texts sort order).Arrangement) (offset limit : ℕ)
    (nameLike userUid : Option String) {visibility : Option String} {visible : SpotGroup → Bool}
    (hvisible : visibilityFilter visibility = .ok visible) (d : Db) :
    Evaluates (listGroupsAdmin texts sort order found offset limit nameLike visibility userUid) d
      (.ok (((((found.run (adminGroups texts nameLike userUid visible d)).drop offset).take
        limit).map
        (toAdminItem d), (adminGroups texts nameLike userUid visible d).length), d)) := by
  unfold listGroupsAdmin
  rw [hvisible]
  apply Evaluates.select
  apply Evaluates.select
  apply Evaluates.select
  apply Evaluates.select
  have hitems : (((found.run (adminGroups texts nameLike userUid visible d)).drop offset).take
      limit).map (toAdminItem d) =
      (((found.run (adminGroups texts nameLike userUid visible d)).drop offset).take limit).map
        fun g => (g, ((groupedCounts (d.members.rows.map SpotGroupMember.groupUid)
            ((((found.run (adminGroups texts nameLike userUid visible d)).drop offset).take
              limit).map SpotGroup.uid)).lookup g.uid).getD 0,
          ((groupedCounts (d.groupSpots.rows.map SpotGroupSpot.groupUid)
            ((((found.run (adminGroups texts nameLike userUid visible d)).drop offset).take
              limit).map SpotGroup.uid)).lookup g.uid).getD 0) := by
    refine List.map_congr_left fun g hg => ?_
    have huid := List.mem_map_of_mem (f := SpotGroup.uid) hg
    rw [toAdminItem, lookup_groupedCounts huid, lookup_groupedCounts huid, count_groupSpots]
  rw [hitems]
  exact .ret _ d

namespace Sample

/-- Texts in the order of their code points. -/
def texts : TextRules := ⟨RowOrder.ofLinear String, id⟩

end Sample

end Vivac
