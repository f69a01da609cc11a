import Vivac.Crud.AdminLists
import Vivac.Core.SampleBackend

/-!
# The pages of the console

The windows at the offsets `0`, `n`, `2 n`, .. of `list_spots_admin` and `list_groups_admin`, up to
the total they report. The database is unchanged, and each query lists rows with equal sort columns
as it likes. The windows hold each matching row once exactly when no class of rows with equal sort
columns has a page boundary inside it (`admin_pages_iff`).
-/

set_option autoImplicit false

namespace Vivac

open Lib App

/-- The number of pages of `n` rows up to the total. -/
def pageCount (total n : ℕ) : ℕ := (total + n - 1) / n

/-- The pages, up to the total the first reports, hold each row once. -/
def Partition {α : Type} (answers : ℕ → List α × ℕ) (n : ℕ) (rows : List α) : Prop :=
  ((List.range (pageCount (answers 0).2 n)).flatMap fun k => (answers k).1).Perm rows

section Lists

variable (texts : TextRules) (d : Db) (n : ℕ) (sort order : String)

/-- However the queries list the spots, the pages partition them. -/
def PartitionsSpots (title : Option String) (filters : List (String × Option String))
    (includeDeleted : Bool) : Prop :=
  ∀ (found : ℕ → (adminOrder texts sort order).Arrangement) (answers : ℕ → List Spot × ℕ),
    (∀ k, Evaluates
      (listSpotsAdmin texts sort order (found k) (k * n) n title filters includeDeleted) d
      (.ok (answers k, d))) →
    Partition answers n (d.spots.select (adminCondition texts title filters includeDeleted))

/-- However the queries list the groups, the pages partition them. -/
def PartitionsGroups (nameLike visibility userUid : Option String)
    (visible : SpotGroup → Bool) : Prop :=
  ∀ (found : ℕ → (SpotGroup.adminOrder texts sort order).Arrangement)
    (answers : ℕ → List (SpotGroup × ℕ × ℕ) × ℕ),
    (∀ k, Evaluates
      (listGroupsAdmin texts sort order (found k) (k * n) n nameLike visibility userUid) d
      (.ok (answers k, d))) →
    Partition (fun k => ((answers k).1.map Prod.fst, (answers k).2)) n
      (adminGroups texts nameLike userUid visible d)

end Lists

/-! ## Windows -/

theorem le_pageCount_mul (total : ℕ) {n : ℕ} (hn : 1 ≤ n) : total ≤ pageCount total n * n := by
  have hdiv : n * ((total + n - 1) / n) + (total + n - 1) % n = total + n - 1 := Nat.div_add_mod ..
  have hmod : (total + n - 1) % n < n := Nat.mod_lt _ hn
  rw [pageCount, Nat.mul_comm]
  omega

section Windows

variable {α : Type} {r : RowOrder α} {rows : List α} {n : ℕ}

/-- Answers that are the windows of what the queries have found. -/
theorem partition_iff_windows {found : ℕ → r.Arrangement} {answers : ℕ → List α × ℕ}
    (h : ∀ k, answers k = (window n k ((found k).run rows), rows.length)) :
    Partition answers n rows ↔
      (windows n (fun k => (found k).run rows) (pageCount rows.length n)).Perm rows := by
  rw [Partition, windows, h 0]
  simp only [h]

end Windows

section Pages

variable {texts : TextRules} {d : Db} {n : ℕ}

theorem partitionsSpots_iff (hn : 1 ≤ n) (sort order : String) (title : Option String)
    (filters : List (String × Option String)) (includeDeleted : Bool) :
    PartitionsSpots texts d n sort order title filters includeDeleted ↔
      ∀ s ∈ d.spots.select (adminCondition texts title filters includeDeleted),
        ¬(adminOrder texts sort order).Straddles
          (d.spots.select (adminCondition texts title filters includeDeleted)) n s := by
  have hrows : (d.spots.select (adminCondition texts title filters includeDeleted)).Nodup :=
    d.spots.nodup_rows.filter _
  rw [← windows_perm_iff hrows hn (le_pageCount_mul _ hn)]
  constructor
  · intro hall found
    have hlist := fun k => evaluates_listSpotsAdmin texts (found k) (k * n) n title filters
      includeDeleted d
    exact (partition_iff_windows fun k => rfl).1 (hall found _ hlist)
  · intro hall found answers hlist
    refine (partition_iff_windows fun k => ?_).2 (hall found)
    have hsame := (hlist k).unique
      (evaluates_listSpotsAdmin texts (found k) (k * n) n title filters includeDeleted d)
    rw [Except.ok.injEq, Prod.mk.injEq] at hsame
    exact hsame.1

theorem partitionsGroups_iff (hn : 1 ≤ n) (sort order : String)
    {nameLike visibility userUid : Option String} {visible : SpotGroup → Bool}
    (hvisible : visibilityFilter visibility = .ok visible) :
    PartitionsGroups texts d n sort order nameLike visibility userUid visible ↔
      ∀ g ∈ adminGroups texts nameLike userUid visible d,
        ¬(SpotGroup.adminOrder texts sort order).Straddles
          (adminGroups texts nameLike userUid visible d) n g := by
  have hrows : (adminGroups texts nameLike userUid visible d).Nodup := d.groups.nodup_rows.filter _
  -- the groups of the items are the rows of the window
  have hitems : ∀ rows : List SpotGroup, (rows.map (toAdminItem d)).map Prod.fst = rows := by
    intro rows
    rw [List.map_map]
    exact List.map_id rows
  rw [← windows_perm_iff hrows hn (le_pageCount_mul _ hn)]
  constructor
  · intro hall found
    have hlist := fun k => evaluates_listGroupsAdmin texts (found k) (k * n) n nameLike
      userUid hvisible d
    refine (partition_iff_windows fun k => ?_).1 (hall found _ hlist)
    exact congrArg (·, _) (hitems _)
  · intro hall found answers hlist
    refine (partition_iff_windows fun k => ?_).2 (hall found)
    have hsame := (hlist k).unique
      (evaluates_listGroupsAdmin texts (found k) (k * n) n nameLike userUid hvisible d)
    rw [Except.ok.injEq, Prod.mk.injEq] at hsame
    rw [hsame.1]
    exact congrArg (·, _) (hitems _)

end Pages

/-- The pages of `n` rows partition a list if and only if no class of matching rows with equal sort
columns has a page boundary inside it. -/
theorem admin_pages_iff (texts : TextRules) (d : Db) {n : ℕ} (hn : 1 ≤ n) (sort order : String) :
    (∀ title filters includeDeleted,
      PartitionsSpots texts d n sort order title filters includeDeleted ↔
        ∀ s ∈ d.spots.select (adminCondition texts title filters includeDeleted),
          ¬(adminOrder texts sort order).Straddles
            (d.spots.select (adminCondition texts title filters includeDeleted)) n s) ∧
    ∀ nameLike visibility userUid visible, visibilityFilter visibility = .ok visible →
      (PartitionsGroups texts d n sort order nameLike visibility userUid visible ↔
        ∀ g ∈ adminGroups texts nameLike userUid visible d,
          ¬(SpotGroup.adminOrder texts sort order).Straddles
            (adminGroups texts nameLike userUid visible d) n g) :=
  ⟨fun title filters includeDeleted =>
    partitionsSpots_iff hn sort order title filters includeDeleted,
    fun _ _ _ _ hvisible => partitionsGroups_iff hn sort order hvisible⟩

namespace Sample

/-- Two spots that were never reviewed. -/
def tied : Db := { Db.empty with spots := ⟨[spot "a", spot "b"], by decide⟩ }

theorem below_tied : ∀ s ∈ tied.spots.select (adminCondition texts none [] false),
    (adminOrder texts "rating_avg" "asc").below
      (tied.spots.select (adminCondition texts none [] false)) s = 0 ∧
    (adminOrder texts "rating_avg" "asc").upTo
      (tied.spots.select (adminCondition texts none [] false)) s = 2 := by
  decide +kernel

end Sample

/-- Pages of two rows hold the two spots. -/
theorem tied_pages_of_two :
    PartitionsSpots Sample.texts Sample.tied 2 "rating_avg" "asc" none [] false := by
  apply ((admin_pages_iff Sample.texts Sample.tied (by decide) "rating_avg" "asc").1
    none [] false).2
  rintro s hs ⟨k, hbelow, hupTo⟩
  obtain ⟨hzero, htwo⟩ := Sample.below_tied s hs
  rw [hzero] at hbelow
  rw [htwo] at hupTo
  omega

/-- Pages of one row may show one of the two spots twice and the other never. -/
theorem tied_pages_of_one :
    ¬PartitionsSpots Sample.texts Sample.tied 1 "rating_avg" "asc" none [] false := by
  rw [partitionsSpots_iff (by decide)]
  intro hfree
  have hmem : Sample.spot "a" ∈
      Sample.tied.spots.select (adminCondition Sample.texts none [] false) :=
    Table.mem_select.2 ⟨List.mem_cons_self .., by decide +kernel⟩
  obtain ⟨hzero, htwo⟩ := Sample.below_tied _ hmem
  exact hfree _ hmem ⟨1, by omega, by omega⟩

end Vivac
