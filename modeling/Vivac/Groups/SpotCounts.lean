import Vivac.Core.SampleBackend
import Vivac.Crud.AdminLists
import Vivac.Endpoints.SpotGroups

/-!
# The number of spots of a group

Four answers show it: the list of the groups of a user, the detail in the app, and the list and the
detail in the console. The details count the spots that are not deleted, as the list of the spots
of a group does; the lists count every row. The numbers are one exactly when no row of the group is
of a deleted spot (`spot_count_iff`).
-/

set_option autoImplicit false

namespace Vivac

open Lib App

/-- Some answer shows the number for the group. -/
inductive ShowsSpotCount (texts : TextRules) (group : SpotGroup) (d : Db) : ℕ → Prop
  | memberList {found : forUserOrder.Arrangement} {userUid : String} {offset limit n : ℕ}
      {rows : List (SpotGroup × GroupRole × ℕ)} {role : GroupRole}
      (hlist : Evaluates (listGroupsForUser found userUid offset limit) d (.ok (rows, d)))
      (hrow : (group, role, n) ∈ rows) : ShowsSpotCount texts group d n
  | appDetail {myRole : Option GroupRole} {detail : SpotGroupDetail}
      (hdetail : Evaluates (SpotGroups.toDetail group myRole) d (.ok (detail, d))) :
      ShowsSpotCount texts group d detail.spotCount
  | adminList {sort order : String} {found : (SpotGroup.adminOrder texts sort order).Arrangement}
      {offset limit total members n : ℕ} {nameLike visibility userUid : Option String}
      {items : List (SpotGroup × ℕ × ℕ)}
      (hlist : Evaluates
        (listGroupsAdmin texts sort order found offset limit nameLike visibility userUid) d
        (.ok ((items, total), d)))
      (hitem : (group, members, n) ∈ items) : ShowsSpotCount texts group d n
  | adminDetail {detail : SpotGroupAdminDetail}
      (hdetail : Evaluates (InternalSpotGroups.toAdminDetail group) d (.ok (detail, d))) :
      ShowsSpotCount texts group d detail.spotCount

/-- Every number shown is the number of spots that can be listed. -/
def SpotCountIsOne (texts : TextRules) (group : SpotGroup) (d : Db) : Prop :=
  ∀ n, ShowsSpotCount texts group d n → ∀ limit rows, groupSpotCount group.uid d ≤ limit →
    Evaluates (listGroupSpots group.uid 0 limit) d (.ok (rows, d)) → n = rows.length

/-- The spot of a row is there and not deleted. -/
def isLiveRow (d : Db) (row : SpotGroupSpot) : Bool :=
  (d.spots.find? row.spotUid).any fun s => s.deletedAt.isNone

/-- The number of rows of the group whose spots are not deleted. -/
def liveSpotCount (groupUid : String) (d : Db) : ℕ :=
  (d.groupSpots.select fun g => g.groupUid == groupUid).countP (isLiveRow d)

section Counts

variable {d : Db} {groupUid : String}

/-! ## The details and the list of spots -/

theorem length_countGroupSpots : (d.groupSpots.select fun g => g.groupUid == groupUid &&
    (d.spots.find? g.spotUid).any fun s => s.deletedAt.isNone).length =
      liveSpotCount groupUid d := by
  rw [liveSpotCount, List.countP_eq_length_filter]
  simp only [Table.select, List.filter_filter, isLiveRow, Bool.and_comm]

theorem evaluates_toDetail (group : SpotGroup) (myRole : Option GroupRole) :
    ∃ detail, Evaluates (SpotGroups.toDetail group myRole) d (.ok (detail, d)) ∧
      detail.spotCount = liveSpotCount group.uid d :=
  ⟨_, Evaluates.select (.ret _ d), length_countGroupSpots⟩

theorem evaluates_toAdminDetail (group : SpotGroup) :
    ∃ detail, Evaluates (InternalSpotGroups.toAdminDetail group) d (.ok (detail, d)) ∧
      detail.spotCount = liveSpotCount group.uid d :=
  ⟨_, Evaluates.select (Evaluates.select (.ret _ d)), length_countGroupSpots⟩

theorem length_groupSpotRows : (groupSpotRows groupUid d).length = liveSpotCount groupUid d := by
  rw [groupSpotRows, List.length_insertionSort, List.length_filterMap_eq_countP, liveSpotCount]
  apply List.countP_congr
  intro row _
  rw [isLiveRow]
  cases d.spots.find? row.spotUid with
  | none => rfl
  | some s => cases hs : s.deletedAt <;> simp [Option.filter, hs]

theorem liveSpotCount_le : liveSpotCount groupUid d ≤ groupSpotCount groupUid d :=
  List.countP_le_length

/-- All spots of the group are listed when the limit is that of its rows or more. -/
theorem length_listed {limit : ℕ} {rows : List (Spot × SpotGroupSpot)}
    (hlimit : groupSpotCount groupUid d ≤ limit)
    (hlist : Evaluates (listGroupSpots groupUid 0 limit) d (.ok (rows, d))) :
    rows.length = liveSpotCount groupUid d := by
  have hall : Evaluates (listGroupSpots groupUid 0 limit) d
      (.ok (((groupSpotRows groupUid d).drop 0).take limit, d)) := Evaluates.statement _ d
  have hsame := hlist.unique hall
  rw [Except.ok.injEq, Prod.mk.injEq] at hsame
  have hle : liveSpotCount groupUid d ≤ limit := le_trans liveSpotCount_le hlimit
  rw [hsame.1, List.length_take, List.drop_zero, length_groupSpotRows]
  omega

/-- The two numbers are equal when every row counts. -/
theorem groupSpotCount_eq_live_iff : groupSpotCount groupUid d = liveSpotCount groupUid d ↔
    ∀ row ∈ d.groupSpots.select fun g => g.groupUid == groupUid, isLiveRow d row = true := by
  rw [groupSpotCount, liveSpotCount, eq_comm, List.countP_eq_length]

end Counts

/-! ## The lists -/

section Lists

variable {texts : TextRules} {group : SpotGroup} {d : Db}

theorem count_of_memberList {found : forUserOrder.Arrangement} {userUid : String}
    {offset limit n : ℕ} {rows : List (SpotGroup × GroupRole × ℕ)} {role : GroupRole}
    (hlist : Evaluates (listGroupsForUser found userUid offset limit) d (.ok (rows, d)))
    (hrow : (group, role, n) ∈ rows) : n = groupSpotCount group.uid d := by
  have hall : Evaluates (listGroupsForUser found userUid offset limit) d
      (.ok (((found.run (groupsForUser userUid d)).drop offset).take limit, d)) :=
    Evaluates.statement _ d
  have hsame := hlist.unique hall
  rw [Except.ok.injEq, Prod.mk.injEq] at hsame
  rw [hsame.1] at hrow
  have hfound := List.mem_of_mem_drop (List.mem_of_mem_take hrow)
  obtain ⟨m, -, hm⟩ := List.mem_filterMap.1 ((found.arranges _).perm.mem_iff.1 hfound)
  obtain ⟨g, -, hg⟩ := Option.map_eq_some_iff.1 hm
  cases hg
  rfl

theorem count_of_adminList {sort order : String}
    {found : (SpotGroup.adminOrder texts sort order).Arrangement}
    {offset limit total members n : ℕ} {nameLike visibility userUid : Option String}
    {items : List (SpotGroup × ℕ × ℕ)}
    (hlist : Evaluates
      (listGroupsAdmin texts sort order found offset limit nameLike visibility userUid) d
      (.ok ((items, total), d)))
    (hitem : (group, members, n) ∈ items) : n = groupSpotCount group.uid d := by
  cases hvisible : visibilityFilter visibility with
  | error e =>
      unfold listGroupsAdmin at hlist
      rw [hvisible] at hlist
      cases hlist
  | ok visible =>
      have hsame := hlist.unique
        (evaluates_listGroupsAdmin texts found offset limit nameLike userUid hvisible d)
      simp only [Except.ok.injEq, Prod.mk.injEq] at hsame
      rw [hsame.1.1] at hitem
      obtain ⟨g, -, hg⟩ := List.mem_map.1 hitem
      cases hg
      rfl

/-- The list of the console shows every group. -/
theorem showsSpotCount_rows (texts : TextRules) (hgroup : group ∈ d.groups.rows) :
    ShowsSpotCount texts group d (groupSpotCount group.uid d) := by
  have hall : adminGroups texts none none (fun _ => true) d = d.groups.rows :=
    List.filter_eq_self.2 fun _ _ => rfl
  have hlist := evaluates_listGroupsAdmin texts (SpotGroup.adminOrder texts "uid" "asc").stable 0
    d.groups.rows.length none none (rfl : visibilityFilter none = .ok fun _ => true) d
  refine .adminList hlist (List.mem_map.2 ⟨group, ?_, rfl⟩)
  have harranges := (SpotGroup.adminOrder texts "uid" "asc").stable.arranges d.groups.rows
  rw [hall, List.drop_zero, List.take_of_length_le (le_of_eq harranges.perm.length_eq)]
  exact harranges.perm.mem_iff.2 hgroup

end Lists

/-- The four numbers are one, and the number of spots that can be listed, if and only if the spot of
every row of the group is not deleted. -/
theorem spot_count_iff (texts : TextRules) {d : Db} {group : SpotGroup}
    (hgroup : group ∈ d.groups.rows) : SpotCountIsOne texts group d ↔
      ∀ row ∈ d.groupSpots.select fun g => g.groupUid == group.uid, isLiveRow d row = true := by
  rw [← groupSpotCount_eq_live_iff]
  constructor
  · intro hone
    have hlist : Evaluates (listGroupSpots group.uid 0 (groupSpotCount group.uid d)) d
        (.ok (((groupSpotRows group.uid d).drop 0).take (groupSpotCount group.uid d), d)) :=
      Evaluates.statement _ d
    have hshown := hone _ (showsSpotCount_rows texts hgroup) _ _ (le_refl _) hlist
    rw [hshown, length_listed (le_refl _) hlist]
  · intro hlive n hshows limit rows hlimit hlist
    rw [length_listed hlimit hlist]
    cases hshows with
    | memberList hmine hrow => rw [count_of_memberList hmine hrow, hlive]
    | adminList hconsole hitem => rw [count_of_adminList hconsole hitem, hlive]
    | appDetail hdetail =>
        obtain ⟨detail, heval, hcount⟩ := evaluates_toDetail (d := d) group _
        have hsame := hdetail.unique heval
        rw [Except.ok.injEq, Prod.mk.injEq] at hsame
        rw [hsame.1, hcount]
    | adminDetail hdetail =>
        obtain ⟨detail, heval, hcount⟩ := evaluates_toAdminDetail (d := d) group
        have hsame := hdetail.unique heval
        rw [Except.ok.injEq, Prod.mk.injEq] at hsame
        rw [hsame.1, hcount]

namespace Sample

def campers : SpotGroup := { uid := "g", name := "Campers" }

/-- A group with one spot. -/
def oneGroup (deletedAt : Option Timestamp) : Db :=
  { Db.empty with
    spots := ⟨[{ spot "s" with deletedAt := deletedAt }], List.nodup_singleton _⟩
    groups := ⟨[campers], List.nodup_singleton _⟩
    groupSpots :=
      ⟨[{ groupUid := "g", spotUid := "s", addedByUid := "u" }], List.nodup_singleton _⟩ }

theorem campers_mem (deletedAt : Option Timestamp) : campers ∈ (oneGroup deletedAt).groups.rows :=
  List.mem_singleton_self _

end Sample

/-- With a spot that is not deleted the numbers are one. -/
theorem spot_count_live : SpotCountIsOne Sample.texts Sample.campers (Sample.oneGroup none) := by
  rw [spot_count_iff Sample.texts (Sample.campers_mem none)]
  decide +kernel

/-- With a deleted spot the list of the console shows 1 and the detail 0. -/
theorem spot_count_deleted :
    ShowsSpotCount Sample.texts Sample.campers (Sample.oneGroup (some 0)) 1 ∧
      ShowsSpotCount Sample.texts Sample.campers (Sample.oneGroup (some 0)) 0 := by
  constructor
  · exact showsSpotCount_rows Sample.texts (Sample.campers_mem (some 0))
  · obtain ⟨detail, heval, hcount⟩ :=
      evaluates_toAdminDetail (d := Sample.oneGroup (some 0)) Sample.campers
    have hzero : detail.spotCount = 0 := by
      rw [hcount]
      decide +kernel
    rw [← hzero]
    exact .adminDetail heval

end Vivac
