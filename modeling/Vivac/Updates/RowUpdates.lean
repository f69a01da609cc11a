import Vivac.Creation.OneRowPerKey
import Vivac.Crud.AdminLists
import Vivac.Crud.SpotReview
import Vivac.Lib.PartialUpdates
import Vivac.Loading.SpotRepeats

/-!
# What the flush of a partial update does

`update_spot`, `update_group` and `update_review` set the pairs of a dictionary in a loaded row and
flush what has changed. When every value is one that its column can hold, the flush replaces the row
by one that has exactly the supplied values, but for `updated_at`; otherwise the database refuses
it (`evaluates_flushSpot`, `refuses_flushSpot`, and those of groups and reviews).
-/

set_option autoImplicit false

namespace Vivac

open Lib App Creation

/-! ## The columns -/

/-- The columns of `spot_groups`. -/
inductive GroupColumn where
  | uid
  | name
  | description
  | visibility
  | createdAt
  | updatedAt
  deriving DecidableEq

/-- The columns of `spot_reviews`. -/
inductive ReviewColumn where
  | uid
  | spotUid
  | userId
  | rating
  | content
  | createdAt
  | updatedAt
  | deletedAt
  deriving DecidableEq

/-- The value of a column. -/
def SpotGroup.get (g : SpotGroup) : GroupColumn → SqlValue
  | .uid => .text g.uid
  | .name => .text g.name
  | .description => .nullable .text g.description
  | .visibility => .text g.visibility.value
  | .createdAt => .nullable .timestamp g.createdAt
  | .updatedAt => .nullable .timestamp g.updatedAt

/-- The value of a column. -/
def SpotReview.get (r : SpotReview) : ReviewColumn → SqlValue
  | .uid => .text r.uid
  | .spotUid => .text r.spotUid
  | .userId => .text r.userId
  | .rating => .integer r.rating
  | .content => .nullable .text r.content
  | .createdAt => .nullable .timestamp r.createdAt
  | .updatedAt => .nullable .timestamp r.updatedAt
  | .deletedAt => .nullable .timestamp r.deletedAt

/-- The range of an `Integer` column. -/
def inInteger (n : ℤ) : Bool := decide (-2 ^ 31 ≤ n ∧ n < 2 ^ 31)

namespace GroupAttr

/-- The column the pair sets. -/
def key : GroupAttr → GroupColumn
  | .name _ => .name
  | .description _ => .description
  | .visibility _ => .visibility

/-- The value the pair sets. -/
def value : GroupAttr → SqlValue
  | .name v | .description v => .nullable .text v
  | .visibility v => .nullable (fun v => .text v.value) v

/-- The column can hold the value. -/
def fits : GroupAttr → Bool
  | .name v => v.any isStorable
  | .description v => v.all isStorable
  | .visibility v => v.isSome

theorem get_set {a : GroupAttr} {g g' : SpotGroup} (h : a.set g = some g') :
    g'.get = Function.update g.get a.key a.value := by
  cases a with
  | name v | visibility v =>
      obtain ⟨w, rfl, rfl⟩ := Option.map_eq_some_iff.1 h
      funext c
      cases c <;> rfl
  | description v =>
      cases h
      funext c
      cases c <;> rfl

/-- A pair that is left out of the flush has the value of the row. -/
theorem get_of_unchanged {a : GroupAttr} {g : SpotGroup} (h : a.unchanged g = true) :
    g.get a.key = a.value := by
  cases a <;> cases eq_of_beq h <;> rfl

/-- A value that fits is storable, and has a row. -/
theorem storable_of_fits {a : GroupAttr} (h : a.fits = true) : a.storable = true := by
  cases a with
  | name v =>
      cases v with
      | none => cases h
      | some v => exact h
  | description v => exact h
  | visibility v => rfl

theorem exists_set {a : GroupAttr} (h : a.fits = true) (g : SpotGroup) :
    ∃ g', a.set g = some g' := by
  cases a with
  | name v | visibility v =>
      cases v with
      | none => cases h
      | some v => exact ⟨_, rfl⟩
  | description v => exact ⟨_, rfl⟩

/-- A storable value that does not fit is a null that no row admits. -/
theorem set_eq_none {a : GroupAttr} (hstorable : a.storable = true) (h : a.fits = false)
    (g : SpotGroup) :
    a.set g = none := by
  cases a with
  | name v =>
      cases v with
      | none => rfl
      | some v => exact absurd (hstorable.symm.trans h) nofun
  | description v => exact absurd (hstorable.symm.trans h) nofun
  | visibility v =>
      cases v with
      | none => rfl
      | some v => cases h

end GroupAttr

namespace ReviewAttr

/-- The column the pair sets. -/
def key : ReviewAttr → ReviewColumn
  | .rating _ => .rating
  | .content _ => .content

/-- The value the pair sets. -/
def value : ReviewAttr → SqlValue
  | .rating v => .nullable .integer v
  | .content v => .nullable .text v

/-- The column can hold the value. -/
def fits : ReviewAttr → Bool
  | .rating v => v.isSome
  | .content v => v.all isStorable

theorem get_set {a : ReviewAttr} {r r' : SpotReview} (h : a.set r = some r') :
    r'.get = Function.update r.get a.key a.value := by
  cases a with
  | rating v =>
      obtain ⟨w, rfl, rfl⟩ := Option.map_eq_some_iff.1 h
      funext c
      cases c <;> rfl
  | content v =>
      cases h
      funext c
      cases c <;> rfl

theorem get_of_unchanged {a : ReviewAttr} {r : SpotReview} (h : a.unchanged r = true) :
    r.get a.key = a.value := by
  cases a <;> cases eq_of_beq h <;> rfl

theorem storable_of_fits {a : ReviewAttr} (h : a.fits = true) : a.storable = true := by
  cases a with
  | rating v => rfl
  | content v => exact h

theorem exists_set {a : ReviewAttr} (h : a.fits = true) (r : SpotReview) :
    ∃ r', a.set r = some r' := by
  cases a with
  | rating v =>
      cases v with
      | none => cases h
      | some v => exact ⟨_, rfl⟩
  | content v => exact ⟨_, rfl⟩

theorem set_eq_none {a : ReviewAttr} (hstorable : a.storable = true) (h : a.fits = false)
    (r : SpotReview) : a.set r = none := by
  cases a with
  | rating v =>
      cases v with
      | none => rfl
      | some v => cases h
  | content v => exact absurd (hstorable.symm.trans h) nofun

end ReviewAttr

namespace SpotAttr

/-- The column can hold the value, as far as its type and `NOT NULL` say. -/
def fits : SpotAttr → Bool
  | .title v => v.isSome
  | .pipelineStatus v => v.isSome
  | .unitCount v => v.all inInteger
  | _ => true

theorem get_of_unchanged {a : SpotAttr} {s : Spot} (h : a.unchanged s = true) :
    s.get a.key = a.value := by
  cases a <;> cases eq_of_beq h <;> rfl

/-- A pair without a row does not fit. -/
theorem exists_set {a : SpotAttr} (h : a.fits = true) (s : Spot) : ∃ s', a.set s = some s' := by
  cases a with
  | title v | pipelineStatus v =>
      cases v with
      | none => cases h
      | some v => exact ⟨_, rfl⟩
  | _ => exact ⟨_, rfl⟩

end SpotAttr

/-- Spots and the pairs that update them. -/
def spotColumns : Columns Spot SpotAttr SpotColumn SqlValue where
  get := Spot.get
  key := SpotAttr.key
  value := SpotAttr.value
  set := SpotAttr.set
  get_set := SpotAttr.get_set

/-- Groups and the pairs that update them. -/
def groupColumns : Columns SpotGroup GroupAttr GroupColumn SqlValue where
  get := SpotGroup.get
  key := GroupAttr.key
  value := GroupAttr.value
  set := GroupAttr.set
  get_set := GroupAttr.get_set

/-- Reviews and the pairs that update them. -/
def reviewColumns : Columns SpotReview ReviewAttr ReviewColumn SqlValue where
  get := SpotReview.get
  key := ReviewAttr.key
  value := ReviewAttr.value
  set := ReviewAttr.set
  get_set := ReviewAttr.get_set

theorem SpotAttr.setAll_eq (as : List SpotAttr) (s : Spot) :
    SpotAttr.setAll as s = spotColumns.setAll as s := by
  induction as generalizing s with
  | nil => rfl
  | cons a as ih => exact congrArg (a.set s).bind (funext ih)

theorem GroupAttr.setAll_eq (as : List GroupAttr) (g : SpotGroup) :
    GroupAttr.setAll as g = groupColumns.setAll as g := by
  induction as generalizing g with
  | nil => rfl
  | cons a as ih => exact congrArg (a.set g).bind (funext ih)

theorem ReviewAttr.setAll_eq (as : List ReviewAttr) (r : SpotReview) :
    ReviewAttr.setAll as r = reviewColumns.setAll as r := by
  induction as generalizing r with
  | nil => rfl
  | cons a as ih => exact congrArg (a.set r).bind (funext ih)

/-- What is known of the rows that are stored: the database has taken them. -/
structure RowsTaken (be : Backend) (d : Db) : Prop where
  spots : SpotsTaken be d
  reviews : ∀ r ∈ d.reviews.rows, r.checkRating = true ∧ r.content.all isStorable = true
  groups : ∀ g ∈ d.groups.rows, isStorable g.name = true ∧ g.description.all isStorable = true

/-! ## Groups -/

section Groups

variable {now : Timestamp} {d : Db} {uid : String} {g : SpotGroup} {data : List GroupAttr}

/-- The group has what the pairs supply, and nothing else has changed. -/
def GroupUpdated (uid : String) (data : List GroupAttr) (d d' : Db) : Prop :=
  ∃ g g', d.groups.find? uid = some g ∧ groupColumns.Sets (· = .updatedAt) data g g' ∧
    d.groups.Replaces d'.groups uid g' ∧ d' = { d with groups := d'.groups }

theorem evaluates_updateGroupRow {f : Rewrite SpotGroup.uid} {g' : SpotGroup}
    (hg : d.groups.find? uid = some g) (hf : f.apply g = some g') :
    Evaluates (execute (updateGroupRow uid f)) d (.ok (true, rewriteGroup uid f d)) := by
  have happly : (updateGroupRow uid f).apply d = .ok (true, rewriteGroup uid f d) := by
    simp only [Stmt.apply, updateGroupRow, hg, hf, Except.map]
  rw [← happly]
  exact Evaluates.statement _ d

theorem refuses_updateGroupRow {f : Rewrite SpotGroup.uid} (hg : d.groups.find? uid = some g)
    (hf : f.apply g = none) : Evaluates (execute (updateGroupRow uid f)) d
      (.error (integrityError "null value violates not-null constraint")) := by
  have happly : (updateGroupRow uid f).apply d =
      .error (integrityError "null value violates not-null constraint") := by
    simp only [Stmt.apply, updateGroupRow, hg, hf, Except.map]
  rw [← happly]
  exact Evaluates.statement _ d

/-- No pair sets the time of the update. -/
theorem GroupAttr.key_ne_updatedAt (a : GroupAttr) : a.key ≠ .updatedAt := by
  cases a <;> nofun

/-- Values that fit are written. -/
theorem evaluates_flushGroup (now : Timestamp) (hg : d.groups.find? uid = some g)
    (hnodup : (data.map GroupAttr.key).Nodup) (hfits : ∀ a ∈ data, a.fits = true) :
    ∃ d', Evaluates (flushGroup now g data) d (.ok ((), d')) ∧ GroupUpdated uid data d d' := by
  obtain ⟨-, hkey⟩ := Table.find?_eq_some.1 hg
  let changed := data.filter fun a => !a.unchanged g
  obtain ⟨g', hg', hsets, hsame⟩ : ∃ g', groupColumns.setAll changed g = some g' ∧
      groupColumns.Sets (fun _ => False) data g g' ∧ (changed = [] → g' = g) :=
    Columns.exists_setAll_filter (fun a ha => GroupAttr.exists_set (hfits a ha)) hnodup
      fun a _ ha => GroupAttr.get_of_unchanged (by simpa using ha)
  show ∃ d', Evaluates (if changed.isEmpty = true then _ else _) d _ ∧ _
  by_cases hempty : changed.isEmpty = true
  · -- nothing is written, and the row is as the pairs say already
    rw [if_pos hempty]
    exact ⟨d, .ret () d, g, g, hg, (hsame (List.isEmpty_iff.1 hempty) ▸ hsets).mono,
      Table.Replaces.refl hg, rfl⟩
  · have happly : (setGroup now changed).apply g = some { g' with updatedAt := some now } := by
      simp only [setGroup, GroupAttr.setAll_eq, hg', Option.map_some]
    have hstorable : changed.all GroupAttr.storable = true :=
      List.all_eq_true.2 fun a ha => GroupAttr.storable_of_fits (hfits a (List.mem_filter.1 ha).1)
    refine ⟨rewriteGroup uid (setGroup now changed) d, ?_, g, { g' with updatedAt := some now }, hg,
      ?_, ?_, rfl⟩
    · rw [if_neg hempty, if_pos hstorable, hkey]
      exact (evaluates_updateGroupRow hg happly).bind_ok (.ret () _)
    · apply hsets.mono.congr fun a _ => a.key_ne_updatedAt
      intro c hc
      cases c <;> first | rfl | exact absurd rfl hc
    · exact Table.replaces_rewrite hg (fun _ _ => beq_iff_eq) happly

/-- A value that does not fit is refused by the database. -/
theorem refuses_flushGroup (now : Timestamp) (hg : d.groups.find? uid = some g)
    (hstored : isStorable g.name = true ∧ g.description.all isStorable = true)
    (hbad : ∃ a ∈ data, a.fits = false) :
    ∃ name message, Evaluates (flushGroup now g data) d (.error (.database name message)) := by
  obtain ⟨a, ha, hunfit⟩ := hbad
  obtain ⟨-, hkey⟩ := Table.find?_eq_some.1 hg
  let changed := data.filter fun a => !a.unchanged g
  -- a value of the row fits, so this one is not left out
  have hnew : a.unchanged g = false := by
    apply Bool.eq_false_iff.2
    intro hsame
    cases a with
    | name v =>
        cases eq_of_beq hsame
        exact absurd (hstored.1.symm.trans hunfit) nofun
    | description v =>
        cases eq_of_beq hsame
        exact absurd (hstored.2.symm.trans hunfit) nofun
    | visibility v =>
        cases eq_of_beq hsame
        cases hunfit
  have hin : a ∈ changed := List.mem_filter.2 ⟨ha, by rw [hnew]; rfl⟩
  have hempty : ¬changed.isEmpty = true := fun h => by
    rw [List.isEmpty_iff.1 h] at hin
    cases hin
  show ∃ name message, Evaluates (if changed.isEmpty = true then _ else _) d _
  rw [if_neg hempty]
  by_cases hstorable : changed.all GroupAttr.storable = true
  · have hnone : (setGroup now changed).apply g = none := by
      have hset : groupColumns.setAll changed g = none := Columns.setAll_eq_none hin
        (fun g => GroupAttr.set_eq_none (List.all_eq_true.1 hstorable a hin) hunfit g) g
      simp only [setGroup, GroupAttr.setAll_eq, hset, Option.map_none]
    rw [if_pos hstorable, hkey]
    exact ⟨_, _, (refuses_updateGroupRow hg hnone).bind_error⟩
  · rw [if_neg hstorable]
    exact ⟨_, _, .raise _ d⟩

end Groups

/-! ## Reviews -/

section Reviews

variable {now : Timestamp} {d : Db} {uid : String} {r : SpotReview} {data : List ReviewAttr}

/-- The review has what the pairs supply, and nothing else has changed. -/
def ReviewUpdated (uid : String) (data : List ReviewAttr) (d d' : Db) : Prop :=
  ∃ r r', d.reviews.find? uid = some r ∧ reviewColumns.Sets (· = .updatedAt) data r r' ∧
    d.reviews.Replaces d'.reviews uid r' ∧ d' = { d with reviews := d'.reviews }

/-- `SpotReviewUpdate` accepts the value. -/
def ReviewAttr.accepted : ReviewAttr → Bool
  | .rating v => v.all fun n => decide (0 ≤ n ∧ n ≤ 10)
  | .content v => v.all fun text => decide (text.length ≤ 2000)

theorem evaluates_updateReviewRow {f : Rewrite SpotReview.uid} {r' : SpotReview}
    (hr : d.reviews.find? uid = some r) (hf : f.apply r = some r')
    (hcheck : r'.checkRating = true) :
    Evaluates (execute (updateReviewRow uid f)) d (.ok (true, rewriteReview uid f d)) := by
  have happly : (updateReviewRow uid f).apply d = .ok (true, rewriteReview uid f d) := by
    simp only [Stmt.apply, updateReviewRow, hr, hf, hcheck, if_true, Except.map]
  rw [← happly]
  exact Evaluates.statement _ d

theorem refuses_updateReviewRow {f : Rewrite SpotReview.uid} (hr : d.reviews.find? uid = some r)
    (hf : f.apply r = none) : Evaluates (execute (updateReviewRow uid f)) d
      (.error (integrityError "null value violates not-null constraint")) := by
  have happly : (updateReviewRow uid f).apply d =
      .error (integrityError "null value violates not-null constraint") := by
    simp only [Stmt.apply, updateReviewRow, hr, hf, Except.map]
  rw [← happly]
  exact Evaluates.statement _ d

theorem ReviewAttr.key_ne_updatedAt (a : ReviewAttr) : a.key ≠ .updatedAt := by
  cases a <;> nofun

/-- The bounds of the schema are those of the constraint. -/
theorem checkRating_of_accepted {r' : SpotReview} (hcheck : r.checkRating = true)
    (haccepted : ∀ a ∈ data, a.accepted = true)
    (hsets : reviewColumns.Sets (fun _ => False) data r r') : r'.checkRating = true := by
  by_cases hrating : ∃ a ∈ data, a.key = .rating
  · obtain ⟨a, ha, hkey⟩ := hrating
    have hvalue := hsets.supplied a ha
    have hin := haccepted a ha
    cases a with
    | rating v =>
        cases v with
        | none => cases hvalue
        | some n =>
            cases hvalue
            exact hin
    | content v => cases hkey
  · have hkept : SqlValue.integer r'.rating = .integer r.rating :=
      hsets.kept .rating not_false fun a ha hkey => hrating ⟨a, ha, hkey⟩
    rw [SpotReview.checkRating, SqlValue.integer.inj hkept]
    exact hcheck

/-- Values that fit are written. -/
theorem evaluates_flushReview (now : Timestamp) (hr : d.reviews.find? uid = some r)
    (hcheck : r.checkRating = true)
    (hnodup : (data.map ReviewAttr.key).Nodup) (haccepted : ∀ a ∈ data, a.accepted = true)
    (hfits : ∀ a ∈ data, a.fits = true) :
    ∃ d', Evaluates (flushReview now r data) d (.ok ((), d')) ∧ ReviewUpdated uid data d d' := by
  obtain ⟨-, hkey⟩ := Table.find?_eq_some.1 hr
  let changed := data.filter fun a => !a.unchanged r
  obtain ⟨r', hr', hsets, hsame⟩ : ∃ r', reviewColumns.setAll changed r = some r' ∧
      reviewColumns.Sets (fun _ => False) data r r' ∧ (changed = [] → r' = r) :=
    Columns.exists_setAll_filter (fun a ha => ReviewAttr.exists_set (hfits a ha)) hnodup
      fun a _ ha => ReviewAttr.get_of_unchanged (by simpa using ha)
  show ∃ d', Evaluates (if changed.isEmpty = true then _ else _) d _ ∧ _
  by_cases hempty : changed.isEmpty = true
  · rw [if_pos hempty]
    exact ⟨d, .ret () d, r, r, hr, (hsame (List.isEmpty_iff.1 hempty) ▸ hsets).mono,
      Table.Replaces.refl hr, rfl⟩
  · have happly : (setReview now changed).apply r = some { r' with updatedAt := some now } := by
      simp only [setReview, ReviewAttr.setAll_eq, hr', Option.map_some]
    have hstorable : changed.all ReviewAttr.storable = true :=
      List.all_eq_true.2 fun a ha => ReviewAttr.storable_of_fits (hfits a (List.mem_filter.1 ha).1)
    refine ⟨rewriteReview uid (setReview now changed) d, ?_, r,
      { r' with updatedAt := some now }, hr,
      ?_, ?_, rfl⟩
    · have hnew : r'.checkRating = true := checkRating_of_accepted hcheck haccepted hsets
      rw [if_neg hempty, if_pos hstorable, hkey]
      exact (evaluates_updateReviewRow hr happly hnew).bind_ok (.ret () _)
    · apply hsets.mono.congr fun a _ => a.key_ne_updatedAt
      intro c hc
      cases c <;> first | rfl | exact absurd rfl hc
    · exact Table.replaces_rewrite hr (fun _ _ => beq_iff_eq) happly

/-- A value that does not fit is refused by the database. -/
theorem refuses_flushReview (now : Timestamp) (hr : d.reviews.find? uid = some r)
    (hstored : r.content.all isStorable = true) (hbad : ∃ a ∈ data, a.fits = false) :
    ∃ name message, Evaluates (flushReview now r data) d (.error (.database name message)) := by
  obtain ⟨a, ha, hunfit⟩ := hbad
  obtain ⟨-, hkey⟩ := Table.find?_eq_some.1 hr
  let changed := data.filter fun a => !a.unchanged r
  -- the values of the row fit, so this one is not left out
  have hnew : a.unchanged r = false := by
    apply Bool.eq_false_iff.2
    intro hsame
    cases a with
    | rating v =>
        cases eq_of_beq hsame
        cases hunfit
    | content v =>
        cases eq_of_beq hsame
        exact absurd (hstored.symm.trans hunfit) nofun
  have hin : a ∈ changed := List.mem_filter.2 ⟨ha, by rw [hnew]; rfl⟩
  have hempty : ¬changed.isEmpty = true := fun h => by
    rw [List.isEmpty_iff.1 h] at hin
    cases hin
  show ∃ name message, Evaluates (if changed.isEmpty = true then _ else _) d _
  rw [if_neg hempty]
  by_cases hstorable : changed.all ReviewAttr.storable = true
  · have hnone : (setReview now changed).apply r = none := by
      have hset : reviewColumns.setAll changed r = none := Columns.setAll_eq_none hin
        (fun r => ReviewAttr.set_eq_none (List.all_eq_true.1 hstorable a hin) hunfit r) r
      simp only [setReview, ReviewAttr.setAll_eq, hset, Option.map_none]
    rw [if_pos hstorable, hkey]
    exact ⟨_, _, (refuses_updateReviewRow hr hnone).bind_error⟩
  · rw [if_neg hstorable]
    exact ⟨_, _, .raise _ d⟩

end Reviews

/-! ## Spots -/

/-- An `Integer` column of the database refuses what is out of its range. -/
def Backend.RefusesWideIntegers (be : Backend) : Prop :=
  ∀ (s : Spot) (n : ℤ), s.unitCount = some n → inInteger n = false → be.refusesSpot s ≠ none

/-- `SpotUpdate` accepts the value. -/
def SpotAttr.accepted : SpotAttr → Bool
  | .trustTier v => v.all fun n => decide (1 ≤ n ∧ n ≤ 3)
  | _ => true

/-- The columns can hold the values, and the database takes the row with them. -/
structure SpotFits (be : Backend) (data : List SpotAttr) (s : Spot) : Prop where
  values : ∀ a ∈ data, a.fits = true
  row : ∀ s', SpotAttr.setAll data s = some s' → be.refusesSpot s' = none

/-- The spot has what the pairs supply, and nothing else has changed. -/
def SpotUpdated (uid : String) (data : List SpotAttr) (d d' : Db) : Prop :=
  ∃ s s', d.spots.find? uid = some s ∧ spotColumns.Sets (· = .updatedAt) data s s' ∧
    d.spots.Replaces d'.spots uid s' ∧ d' = { d with spots := d'.spots }

section Spots

variable {be : Backend} {now : Timestamp} {d : Db} {uid : String} {s : Spot} {data : List SpotAttr}
  {columns : List String}

theorem select_of_find? (hs : d.spots.find? uid = some s) :
    d.spots.select (fun x => x.uid == uid) = [s] := by
  rw [Table.select_eq_find? (k := uid) fun _ => beq_iff_eq, hs, Option.toList_some]

theorem evaluates_updateSpotRow {f : Rewrite Spot.uid} {s' : Spot} (hs : d.spots.find? uid = some s)
    (hf : f.apply s = some s') (htaken : refusesSpotRow be s' = none) :
    Evaluates (execute (updateSpots be (fun x => x.uid == uid) f columns)) d
      (.ok ([uid], rewriteSpots [uid] f d)) := by
  have huid : s.uid = uid := (Table.find?_eq_some.1 hs).2
  have happly : (updateSpots be (fun x => x.uid == uid) f columns).apply d =
      .ok ([uid], rewriteSpots [uid] f d) := by
    simp only [Stmt.apply, updateSpots, select_of_find? hs, refusal, hf, htaken, List.map_cons,
      List.map_nil, huid, Except.map]
  rw [← happly]
  exact Evaluates.statement _ d

theorem refuses_updateSpotRow {f : Rewrite Spot.uid} {e : Exc} (hs : d.spots.find? uid = some s)
    (h : refusal be f [s] = some e) :
    Evaluates (execute (updateSpots be (fun x => x.uid == uid) f columns)) d (.error e) := by
  have happly : (updateSpots be (fun x => x.uid == uid) f columns).apply d = .error e := by
    simp only [Stmt.apply, updateSpots, select_of_find? hs, h, Except.map]
  rw [← happly]
  exact Evaluates.statement _ d

theorem SpotAttr.key_ne_updatedAt (a : SpotAttr) : a.key ≠ .updatedAt := by
  cases a <;> nofun

/-- Pairs that name each column once set each column once. -/
theorem nodup_columns (h : (data.map SpotAttr.column).Nodup) : (data.map SpotAttr.key).Nodup := by
  have hnames : data.map SpotAttr.column = (data.map SpotAttr.key).map SpotColumn.name := by
    rw [List.map_map]
    exact List.map_congr_left fun a _ => SpotAttr.column_eq_name a
  rw [hnames] at h
  exact List.Nodup.of_map _ h

/-- The bounds of the schema are those of the constraint. -/
theorem checkTrustTier_of_accepted {s' : Spot} (hcheck : s.checkTrustTier = true)
    (haccepted : ∀ a ∈ data, a.accepted = true)
    (hsets : spotColumns.Sets (fun _ => False) data s s') : s'.checkTrustTier = true := by
  have hinjective :=
      SqlValue.nullable_injective (f := .integer) (fun _ _ h => by cases h; rfl) nofun
  by_cases htier : ∃ a ∈ data, a.key = .trustTier
  · obtain ⟨a, ha, hkey⟩ := htier
    have hvalue := hsets.supplied a ha
    have hin := haccepted a ha
    cases a with
    | trustTier v =>
        have hv : s'.trustTier = v := hinjective hvalue
        rw [Spot.checkTrustTier, hv]
        cases v with
        | none => rfl
        | some n => exact hin
    | _ => cases hkey
  · have hkept : s'.trustTier = s.trustTier :=
      hinjective (hsets.kept .trustTier not_false fun a ha hkey => htier ⟨a, ha, hkey⟩)
    rw [Spot.checkTrustTier, hkept]
    exact hcheck

/-- A stored row meets the constraint, and the database has no reason of its own to refuse it. -/
theorem taken_iff : refusesSpotRow be s = none ↔ s.checkTrustTier = true ∧
    be.refusesSpot s = none := by
  unfold refusesSpotRow
  cases s.checkTrustTier <;> cases be.refusesSpot s <;> simp

/-- The time of an update is no reason to refuse a row. -/
theorem refuses_updatedAt (hbe : be.IgnoresStamps) (s : Spot) (updatedAt : Option Timestamp) :
    be.refusesSpot { s with updatedAt := updatedAt } = be.refusesSpot s := by
  refine hbe _ _ ⟨fun c _ _ hc => ?_, .inl rfl⟩
  cases c <;> first | rfl | exact absurd rfl hc

/-- Values that fit are written. -/
theorem evaluates_flushSpot (now : Timestamp) (hbe : be.IgnoresStamps)
    (hs : d.spots.find? uid = some s)
    (hstored : refusesSpotRow be s = none) (hnodup : (data.map SpotAttr.column).Nodup)
    (haccepted : ∀ a ∈ data, a.accepted = true) (hfits : SpotFits be data s) :
    ∃ d', Evaluates (flushSpot be now s data) d (.ok ((), d')) ∧ SpotUpdated uid data d d' := by
  obtain ⟨-, hkey⟩ := Table.find?_eq_some.1 hs
  have hset : ∀ a ∈ data, ∀ s, ∃ s', a.set s = some s' := fun a ha =>
    SpotAttr.exists_set (hfits.values a ha)
  let changed := data.filter fun a => !a.unchanged s
  obtain ⟨s', hs', hsets, hsame⟩ : ∃ s', spotColumns.setAll changed s = some s' ∧
      spotColumns.Sets (fun _ => False) data s s' ∧ (changed = [] → s' = s) :=
    Columns.exists_setAll_filter hset (nodup_columns hnodup) fun a _ ha =>
      SpotAttr.get_of_unchanged (by simpa using ha)
  show ∃ d', Evaluates (if changed.isEmpty = true then _ else _) d _ ∧ _
  by_cases hempty : changed.isEmpty = true
  · rw [if_pos hempty]
    exact ⟨d, .ret () d, s, s, hs, (hsame (List.isEmpty_iff.1 hempty) ▸ hsets).mono,
      Table.Replaces.refl hs, rfl⟩
  · have happly : (setSpot now changed).apply s = some { s' with updatedAt := some now } := by
      simp only [setSpot, SpotAttr.setAll_eq, hs', Option.map_some]
    -- leaving pairs out makes no difference to the row
    obtain ⟨t, ht⟩ : ∃ t, spotColumns.setAll data s = some t := Columns.exists_setAll hset s
    have hrow : t = s' :=
      Spot.get_injective ((Columns.sets_setAll ht (nodup_columns hnodup)).get_eq hsets)
    have htaken : refusesSpotRow be { s' with updatedAt := some now } = none := by
      have hcheck : s'.checkTrustTier = true :=
        checkTrustTier_of_accepted (taken_iff.1 hstored).1 haccepted hsets
      refine taken_iff.2 ⟨hcheck, ?_⟩
      rw [refuses_updatedAt hbe, ← hrow]
      exact hfits.row t (by rw [SpotAttr.setAll_eq]; exact ht)
    refine ⟨rewriteSpots [uid] (setSpot now changed) d, ?_, s,
      { s' with updatedAt := some now }, hs,
      ?_, ?_, rfl⟩
    · rw [if_neg hempty, hkey]
      exact (evaluates_updateSpotRow hs happly htaken).bind_ok (.ret () _)
    · apply hsets.mono.congr fun a _ => a.key_ne_updatedAt
      intro c hc
      cases c <;> first | rfl | exact absurd rfl hc
    · exact Table.replaces_rewrite hs (fun _ _ => by simp) happly

/-- A pair has a row, or is a null that no row admits. -/
theorem SpotAttr.set_cases (a : SpotAttr) : (∀ s, ∃ s', a.set s = some s') ∨
    ((∀ s, a.set s = none) ∧ (∀ s, a.unchanged s = false)) := by
  cases a with
  | title v | pipelineStatus v =>
      cases v with
      | none => exact .inr ⟨fun _ => rfl, fun _ => rfl⟩
      | some v => exact .inl fun s => ⟨_, rfl⟩
  | _ => exact .inl fun s => ⟨_, rfl⟩

/-- The database takes a row with pairs only where each value fits. -/
theorem fits_of_taken (hwide : be.RefusesWideIntegers) {s' : Spot}
    (hset : ∀ a ∈ data, ∀ s, ∃ s', a.set s = some s')
    (hsets : spotColumns.Sets (fun _ => False) data s s') (htaken : be.refusesSpot s' = none)
    {a : SpotAttr} (ha : a ∈ data) : a.fits = true := by
  cases a with
  | title v | pipelineStatus v =>
      cases v with
      | none =>
          obtain ⟨t, ht⟩ := hset _ ha s
          cases ht
      | some v => rfl
  | unitCount v =>
      cases v with
      | none => rfl
      | some n =>
          have hn : s'.unitCount = some n :=
            SqlValue.nullable_injective (f := .integer) (fun _ _ h => by cases h; rfl) nofun
              (hsets.supplied _ ha)
          by_contra hfit
          exact hwide s' n hn (Bool.eq_false_iff.2 hfit) htaken
  | _ => rfl

/-- What the database says to the pairs that do not fit. -/
theorem refusal_of_unfit (now : Timestamp) (hbe : be.IgnoresStamps) (hwide : be.RefusesWideIntegers)
    (hstored : refusesSpotRow be s = none) (hnodup : (data.map SpotAttr.column).Nodup)
    (hbad : ¬SpotFits be data s) : (data.filter fun a => !a.unchanged s) ≠ [] ∧
      ∃ name message, refusal be (setSpot now (data.filter fun a => !a.unchanged s)) [s] =
        some (.database name message) := by
  let changed := data.filter fun a => !a.unchanged s
  by_cases hset : ∀ a ∈ data, ∀ s, ∃ s', a.set s = some s'
  · obtain ⟨s', hs', hsets, hsame⟩ : ∃ s', spotColumns.setAll changed s = some s' ∧
        spotColumns.Sets (fun _ => False) data s s' ∧ (changed = [] → s' = s) :=
      Columns.exists_setAll_filter hset (nodup_columns hnodup) fun a _ ha =>
        SpotAttr.get_of_unchanged (by simpa using ha)
    have hunfit : be.refusesSpot s' ≠ none := by
      intro htaken
      refine hbad ⟨fun a ha => fits_of_taken hwide hset hsets htaken ha, fun t ht => ?_⟩
      rw [SpotAttr.setAll_eq] at ht
      have hrow : t = s' :=
        Spot.get_injective ((Columns.sets_setAll ht (nodup_columns hnodup)).get_eq hsets)
      rw [hrow]
      exact htaken
    have hrefuses : ∃ name message,
        refusesSpotRow be { s' with updatedAt := some now } = some (.database name message) := by
      obtain ⟨text, htext⟩ := Option.ne_none_iff_exists'.1 hunfit
      unfold refusesSpotRow
      rw [refuses_updatedAt hbe, htext]
      split
      · exact ⟨_, _, rfl⟩
      · exact ⟨_, _, rfl⟩
    obtain ⟨name, message, hrefuses⟩ := hrefuses
    have happly : (setSpot now changed).apply s = some { s' with updatedAt := some now } := by
      simp only [setSpot, SpotAttr.setAll_eq, hs', Option.map_some]
    refine ⟨fun hnil => ?_, name, message, ?_⟩
    · -- the row as it is stored was taken
      rw [hsame hnil] at hunfit
      exact hunfit (taken_iff.1 hstored).2
    · show refusal be (setSpot now changed) [s] = _
      simp only [refusal, happly, hrefuses]
  · obtain ⟨a, hnot⟩ := not_forall.1 hset
    obtain ⟨ha, hnot⟩ := Classical.not_imp.1 hnot
    obtain ⟨hnone, hnew⟩ := a.set_cases.resolve_left hnot
    have hin : a ∈ changed := List.mem_filter.2 ⟨ha, by rw [hnew]; rfl⟩
    have happly : (setSpot now changed).apply s = none := by
      have hnull : spotColumns.setAll changed s = none := Columns.setAll_eq_none hin hnone s
      simp only [setSpot, SpotAttr.setAll_eq, hnull, Option.map_none]
    refine ⟨List.ne_nil_of_mem hin, "IntegrityError", "null value violates not-null constraint", ?_⟩
    show refusal be (setSpot now changed) [s] = _
    simp only [refusal, happly, integrityError]

/-- A value that does not fit, or a row that the database does not take, is refused. -/
theorem refuses_flushSpot (now : Timestamp) (hbe : be.IgnoresStamps)
    (hwide : be.RefusesWideIntegers)
    (hs : d.spots.find? uid = some s) (hstored : refusesSpotRow be s = none)
    (hnodup : (data.map SpotAttr.column).Nodup) (hbad : ¬SpotFits be data s) :
    ∃ name message, Evaluates (flushSpot be now s data) d (.error (.database name message)) := by
  obtain ⟨-, hkey⟩ := Table.find?_eq_some.1 hs
  obtain ⟨hchanged, name, message, hrefusal⟩ :=
    refusal_of_unfit now hbe hwide hstored hnodup hbad
  unfold flushSpot
  dsimp only
  rw [if_neg fun h => hchanged (List.isEmpty_iff.1 h), hkey]
  exact ⟨name, message, (refuses_updateSpotRow hs hrefusal).bind_error⟩

end Spots

end Vivac
