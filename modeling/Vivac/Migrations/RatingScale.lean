import Vivac.Core.SampleBackend
import Vivac.Crud.SpotReview
import Mathlib.Tactic.Linarith
import Mathlib.Tactic.Ring

/-!
# The migration of the ratings

Revision fb8be0e57798 turns ratings from 0 to 5 stars into points from 0 to 10, of which 10 are 5
stars. It rounds the stars and does not double them, and it leaves the averages of the spots as they
are. The ratings keep their meaning exactly where the stars and their double round alike, and then
the averages do where the stars of each spot add up to their rounded ones
(`upgrade_preserves_meaning_iff`).
-/

set_option autoImplicit false

namespace Vivac

open Lib

/-- `round(double precision)`: the nearest integer, ties to even. -/
def roundDouble (q : ℚ) : ℤ := Py.roundHalfEven q

theorem roundDouble_spec (q : ℚ) : (roundDouble q : ℚ) - 1 / 2 ≤ q ∧
    q ≤ (roundDouble q : ℚ) + 1 / 2 ∧
    (q = (roundDouble q : ℚ) - 1 / 2 ∨ q = (roundDouble q : ℚ) + 1 / 2 →
      roundDouble q % 2 = 0) := by
  have hfloor := Int.floor_le q
  have hfloor' := Int.lt_floor_add_one q
  unfold roundDouble Py.roundHalfEven
  dsimp only
  split
  · refine ⟨by linarith, by linarith, ?_⟩
    rintro (h | h) <;> linarith
  · split
    · push_cast
      refine ⟨by linarith, by linarith, ?_⟩
      rintro (h | h) <;> linarith
    · split
      · rename_i heven
        exact ⟨by linarith, by linarith, fun _ => heven⟩
      · rename_i hodd
        push_cast
        refine ⟨by linarith, by linarith, fun _ => ?_⟩
        omega

theorem roundDouble_eq_zero {q : ℚ} (h : 0 ≤ q) (h' : q ≤ 1 / 2) : roundDouble q = 0 := by
  obtain ⟨hlow, hhigh, htie⟩ := roundDouble_spec q
  have hlow' : (roundDouble q : ℚ) < 2 := by linarith
  have hhigh' : (-1 : ℚ) < (roundDouble q : ℚ) := by linarith
  have hlt : roundDouble q < 2 := by exact_mod_cast hlow'
  have hgt : -1 < roundDouble q := by exact_mod_cast hhigh'
  have hcases : roundDouble q = 0 ∨ roundDouble q = 1 := by omega
  rcases hcases with h0 | h1
  · exact h0
  · rw [h1] at hlow htie
    have hodd := htie (.inl (by push_cast at *; linarith))
    omega

theorem roundDouble_eq_one {q : ℚ} (h : 1 / 2 < q) (h' : q < 3 / 2) : roundDouble q = 1 := by
  obtain ⟨hlow, hhigh, -⟩ := roundDouble_spec q
  have hlow' : (roundDouble q : ℚ) < 2 := by linarith
  have hhigh' : (0 : ℚ) < (roundDouble q : ℚ) := by linarith
  have hlt : roundDouble q < 2 := by exact_mod_cast hlow'
  have hgt : 0 < roundDouble q := by exact_mod_cast hhigh'
  omega

/-- Where a number and its double round alike. -/
theorem roundDouble_two_mul_iff {q : ℚ} (h : 0 ≤ q) :
    roundDouble q = roundDouble (2 * q) ↔ q ≤ 1 / 4 ∨ (1 / 2 < q ∧ q < 3 / 4) := by
  constructor
  · intro heq
    obtain ⟨hlow, hhigh, htie⟩ := roundDouble_spec q
    obtain ⟨hlow₂, hhigh₂, htie₂⟩ := roundDouble_spec (2 * q)
    rw [← heq] at hlow₂ hhigh₂ htie₂
    have hle : q ≤ 1 := by linarith
    have hlt : (roundDouble q : ℚ) < 2 := by linarith
    have hgt : (-1 : ℚ) < (roundDouble q : ℚ) := by linarith
    have hlt' : roundDouble q < 2 := by exact_mod_cast hlt
    have hgt' : -1 < roundDouble q := by exact_mod_cast hgt
    have hcases : roundDouble q = 0 ∨ roundDouble q = 1 := by omega
    rcases hcases with h0 | h1
    · rw [h0] at hhigh₂
      push_cast at hhigh₂
      exact .inl (by linarith)
    · -- one is odd, so neither number is half way to it
      rw [h1] at hlow hhigh₂ htie htie₂
      push_cast at *
      have hlow' : q ≠ 1 - 1 / 2 := fun h => absurd (htie (.inl h)) (by decide)
      have hhigh' : 2 * q ≠ 1 + 1 / 2 := fun h => absurd (htie₂ (.inr h)) (by decide)
      refine .inr ⟨?_, ?_⟩
      · exact lt_of_le_of_ne (by linarith) fun h => hlow' (by linarith)
      · have hlt : 2 * q < 1 + 1 / 2 := lt_of_le_of_ne hhigh₂ hhigh'
        linarith
  · rintro (hsmall | ⟨hlow, hhigh⟩)
    · rw [roundDouble_eq_zero h (by linarith), roundDouble_eq_zero (by linarith) (by linarith)]
    · rw [roundDouble_eq_one hlow (by linarith), roundDouble_eq_one (by linarith) (by linarith)]

/-! ## The tables -/

/-- A row of `spot_reviews` before the revision: the rating is in stars, and nothing is deleted. -/
structure OldReview where
  uid : String
  spotUid : String
  userId : String
  rating : ℚ
  content : Option String := none
  createdAt : Option Timestamp := none
  updatedAt : Option Timestamp := none

/-- The tables before the revision: the reviews, and the other tables. -/
structure OldTables where
  reviews : Table OldReview.uid
  others : Db

namespace OldTables

/-- The stars that a spot has got. -/
def stars (old : OldTables) (spotUid : String) : List ℚ :=
  (old.reviews.select fun r => r.spotUid == spotUid).map OldReview.rating

/-- The mean of the stars; that of none is 0. -/
def meanStars (old : OldTables) (spotUid : String) : ℚ :=
  (old.stars spotUid).sum / (old.stars spotUid).length

/-- What the old schema allows, with the averages up to date. -/
structure Valid (old : OldTables) : Prop where
  range : ∀ r ∈ old.reviews.rows, 0 ≤ r.rating ∧ r.rating ≤ 5
  unique : (old.reviews.rows.map fun r => (r.spotUid, r.userId)).Nodup
  averages : ∀ s ∈ old.others.spots.rows, s.ratingAvg = old.meanStars s.uid

end OldTables

/-! ## The revision -/

/-- `ALTER COLUMN rating TYPE smallint USING round(rating)::smallint`, with `deleted_at` added. -/
def migrateReview (r : OldReview) : SpotReview :=
  { uid := r.uid, spotUid := r.spotUid, userId := r.userId, rating := roundDouble r.rating,
    content := r.content, createdAt := r.createdAt, updatedAt := r.updatedAt }

theorem nodup_migrateReview (reviews : Table OldReview.uid) :
    ((reviews.rows.map migrateReview).map SpotReview.uid).Nodup := by
  rw [List.map_map]
  exact reviews.nodup

/-- The reviews after the revision. -/
def migratedReviews (reviews : Table OldReview.uid) : Table SpotReview.uid :=
  ⟨reviews.rows.map migrateReview, nodup_migrateReview reviews⟩

theorem uid_undeleted (s : Spot) : { s with deletedAt := none : Spot }.uid = s.uid := rfl

/-- The spots with `deleted_at` added. -/
def undeleted (d : Db) : Db where
  __ := d
  spots := d.spots.update (fun _ => true) (fun s => { s with deletedAt := none }) uid_undeleted

/-- `upgrade()`: the cast, the new check and the new unique index can each fail. -/
def upgrade (old : OldTables) : Except Exc Db :=
  if (old.reviews.rows.map migrateReview).any fun r => r.rating < -32768 || 32767 < r.rating then
    .error (.database "DataError" "smallint out of range")
  else if !(old.reviews.rows.map migrateReview).all SpotReview.checkRating then
    .error (.database "IntegrityError" "check_review_rating_range")
  else if !decide ((old.reviews.rows.map migrateReview).map fun r =>
    (r.spotUid, r.userId)).Nodup then
    .error (.database "IntegrityError" "uq_spot_user_review_active")
  else .ok { undeleted old.others with reviews := migratedReviews old.reviews }

/-- Every rating is the old one on the new scale, and every average that of the ratings. -/
structure PreservesMeaning (old : OldTables) (d : Db) : Prop where
  ratings : ∀ r ∈ old.reviews.rows, ∃ r', d.reviews.find? r.uid = some r' ∧
    r'.rating = roundDouble (2 * r.rating)
  averages : ∀ s ∈ d.spots.rows, s.ratingAvg = ((aggregateReviews s.uid d).1).getD 0

/-- Stars that round like their double, and add up to their rounded ones for every spot. -/
structure RoundsEvenly (old : OldTables) : Prop where
  ratings : ∀ r ∈ old.reviews.rows, r.rating ≤ 1 / 4 ∨ (1 / 2 < r.rating ∧ r.rating < 3 / 4)
  sums : ∀ s ∈ old.others.spots.rows,
    (old.stars s.uid).sum = (old.stars s.uid).countP fun q => 1 / 2 < q

section Upgrade

variable {old : OldTables}

/-- What the old schema allows can be migrated. -/
theorem upgrade_eq_ok (h : old.Valid) :
    upgrade old = .ok { undeleted old.others with reviews := migratedReviews old.reviews } := by
  have hrange : ∀ r ∈ old.reviews.rows.map migrateReview, 0 ≤ r.rating ∧ r.rating ≤ 10 := by
    intro r' hr'
    obtain ⟨r, hr, rfl⟩ := List.mem_map.1 hr'
    obtain ⟨hlow, hhigh⟩ := h.range r hr
    obtain ⟨hround, hround', -⟩ := roundDouble_spec r.rating
    have hpos : (-1 : ℚ) < (roundDouble r.rating : ℚ) := by linarith
    have hlt : (roundDouble r.rating : ℚ) < 6 := by linarith
    have hpos' : -1 < roundDouble r.rating := by exact_mod_cast hpos
    have hlt' : roundDouble r.rating < 6 := by exact_mod_cast hlt
    show 0 ≤ roundDouble r.rating ∧ roundDouble r.rating ≤ 10
    omega
  have hsmallint : ((old.reviews.rows.map migrateReview).any fun r =>
      r.rating < -32768 || 32767 < r.rating) = false := by
    rw [List.any_eq_false]
    intro r hr
    obtain ⟨hlow, hhigh⟩ := hrange r hr
    simp only [Bool.or_eq_true, decide_eq_true_eq]
    omega
  have hcheck : (old.reviews.rows.map migrateReview).all SpotReview.checkRating = true :=
    List.all_eq_true.2 fun r hr => decide_eq_true (hrange r hr)
  have hunique : ((old.reviews.rows.map migrateReview).map fun r =>
      (r.spotUid, r.userId)).Nodup := by
    rw [List.map_map]
    exact h.unique
  unfold upgrade
  rw [hsmallint, if_neg Bool.false_ne_true, hcheck, Bool.not_true, if_neg Bool.false_ne_true,
    decide_eq_true hunique, Bool.not_true, if_neg Bool.false_ne_true]

/-- A migrated review is found under its uid. -/
theorem find?_migratedReviews {reviews : Table OldReview.uid} {r : OldReview}
    (hr : r ∈ reviews.rows) :
    (migratedReviews reviews).find? r.uid = some (migrateReview r) :=
  Table.find?_eq_some.2 ⟨List.mem_map_of_mem hr, rfl⟩

/-- The ratings of a spot after the revision are its stars, rounded. -/
theorem activeReviews_upgraded (spotUid : String) :
    (activeReviews spotUid { undeleted old.others with reviews := migratedReviews old.reviews }).map
        (fun r => (r.rating : ℚ)) = (old.stars spotUid).map fun q => (roundDouble q : ℚ) := by
  have hactive : (old.reviews.rows.map migrateReview).filter (SpotReview.activeOf spotUid) =
      (old.reviews.rows.filter fun r => r.spotUid == spotUid).map migrateReview := by
    rw [List.filter_map]
    congr 1
    apply List.filter_congr
    intro r _
    simp [SpotReview.activeOf, migrateReview]
  show ((old.reviews.rows.map migrateReview).filter (SpotReview.activeOf spotUid)).map _ = _
  rw [hactive, List.map_map, OldTables.stars, Table.select, List.map_map]
  rfl

/-- The average that the ratings of a spot have after the revision. -/
theorem average_upgraded (spotUid : String) :
    ((aggregateReviews spotUid
        { undeleted old.others with reviews := migratedReviews old.reviews }).1).getD 0 =
      ((old.stars spotUid).map fun q => (roundDouble q : ℚ)).sum / (old.stars spotUid).length := by
  have hratings :
      (activeReviews spotUid
        { undeleted old.others with reviews := migratedReviews old.reviews }).map
        (fun r => (r.rating : ℚ)) = (old.stars spotUid).map fun q => (roundDouble q : ℚ) :=
    activeReviews_upgraded spotUid
  have hlength := congrArg List.length hratings
  rw [List.length_map, List.length_map] at hlength
  unfold aggregateReviews
  dsimp only
  rw [hratings, hlength]
  split
  · rename_i hempty
    rw [List.isEmpty_iff] at hempty
    rw [hempty, List.length_nil] at hlength
    rw [← hlength, Nat.cast_zero, div_zero]
    rfl
  · rfl

/-- Stars that round like their double round to 1 above a half, and to 0 below a quarter. -/
theorem sum_roundDouble {l : List ℚ} (h : ∀ q ∈ l, 0 ≤ q)
    (hl : ∀ q ∈ l, q ≤ 1 / 4 ∨ (1 / 2 < q ∧ q < 3 / 4)) :
    (l.map fun q => (roundDouble q : ℚ)).sum = (l.countP fun q => 1 / 2 < q : ℕ) := by
  induction l with
  | nil => rfl
  | cons q l ih =>
      have htail := ih (fun q hq => h q (List.mem_cons_of_mem _ hq))
        fun q hq => hl q (List.mem_cons_of_mem _ hq)
      rw [List.map_cons, List.sum_cons, htail]
      rcases hl q List.mem_cons_self with hsmall | ⟨hlow, hhigh⟩
      · have hnot : ¬(1 / 2 : ℚ) < q := by linarith
        rw [roundDouble_eq_zero (h q List.mem_cons_self) (by linarith),
          List.countP_cons_of_neg (by simpa using hnot)]
        simp
      · rw [roundDouble_eq_one hlow (by linarith), List.countP_cons_of_pos (by simpa using hlow)]
        push_cast
        ring

/-- Two means of one number of values are equal when the sums are. -/
theorem div_length_inj {l : List ℚ} {x : ℚ} (hx : l = [] → x = 0) :
    l.sum / l.length = x / l.length ↔ l.sum = x := by
  cases l with
  | nil => simp [hx rfl]
  | cons q l =>
      have hne : ((q :: l).length : ℚ) ≠ 0 := by
        rw [List.length_cons]
        exact_mod_cast Nat.succ_ne_zero l.length
      exact div_left_inj' hne

/-- The revision goes through on everything that the old schema allows, and the ratings and averages
keep their meaning if and only if the stars round like their double, and add up to their rounded
ones for every spot. -/
theorem upgrade_preserves_meaning_iff (h : old.Valid) :
    ∃ d, upgrade old = .ok d ∧ (PreservesMeaning old d ↔ RoundsEvenly old) := by
  refine ⟨_, upgrade_eq_ok h, ?_⟩
  have hratings : (∀ r ∈ old.reviews.rows, ∃ r',
      (migratedReviews old.reviews).find? r.uid = some r' ∧
        r'.rating = roundDouble (2 * r.rating)) ↔
      ∀ r ∈ old.reviews.rows, r.rating ≤ 1 / 4 ∨ (1 / 2 < r.rating ∧ r.rating < 3 / 4) := by
    refine forall₂_congr fun r hr => ?_
    rw [← roundDouble_two_mul_iff (h.range r hr).1, find?_migratedReviews hr]
    constructor
    · rintro ⟨r', hr', hrating⟩
      cases hr'
      exact hrating
    · exact fun hrating => ⟨_, rfl, hrating⟩
  have hstars : ∀ u, ∀ q ∈ old.stars u, ∃ r ∈ old.reviews.rows, r.rating = q := by
    intro u q hq
    obtain ⟨r, hr, rfl⟩ := List.mem_map.1 hq
    exact ⟨r, List.mem_of_mem_filter hr, rfl⟩
  -- with the ratings right, the average of a spot is right when its sum is
  have haverage : (∀ r ∈ old.reviews.rows,
      r.rating ≤ 1 / 4 ∨ (1 / 2 < r.rating ∧ r.rating < 3 / 4)) →
      ∀ s ∈ old.others.spots.rows, (s.ratingAvg = ((aggregateReviews s.uid
        { undeleted old.others with reviews := migratedReviews old.reviews }).1).getD 0 ↔
          (old.stars s.uid).sum = (old.stars s.uid).countP fun q => 1 / 2 < q) := by
    intro hall s hs
    have hpos : ∀ q ∈ old.stars s.uid, 0 ≤ q := by
      intro q hq
      obtain ⟨r, hr, rfl⟩ := hstars _ q hq
      exact (h.range r hr).1
    have hsmall : ∀ q ∈ old.stars s.uid, q ≤ 1 / 4 ∨ (1 / 2 < q ∧ q < 3 / 4) := by
      intro q hq
      obtain ⟨r, hr, rfl⟩ := hstars _ q hq
      exact hall r hr
    rw [average_upgraded, sum_roundDouble hpos hsmall, h.averages s hs, OldTables.meanStars]
    apply div_length_inj
    intro hnil
    rw [hnil]
    rfl
  constructor
  · intro hmeaning
    have hall := hratings.1 hmeaning.ratings
    refine ⟨hall, fun s hs => ?_⟩
    exact (haverage hall s hs).1 (hmeaning.averages { s with deletedAt := none }
      (List.mem_map_of_mem (f := fun s : Spot => { s with deletedAt := none }) hs))
  · intro hrounds
    refine ⟨hratings.2 hrounds.ratings, fun s' hs' => ?_⟩
    obtain ⟨s, hs, rfl⟩ := List.mem_map.1 hs'
    exact (haverage hrounds.ratings s hs).2 (hrounds.sums s hs)

end Upgrade

namespace Sample

/-- Reviews of a spot, each with its writer and its stars. -/
def oldReviews (stars : List (String × ℚ)) : List OldReview :=
  stars.map fun p => { uid := p.1, spotUid := "camp", userId := p.1, rating := p.2 }

def ratedCamp (avg : ℚ) : Spot := { spot "camp" with ratingAvg := avg, reviewCount := 1 }

/-- The tables of one spot with an average. -/
def oldTables (stars : List (String × ℚ)) (h : ((oldReviews stars).map OldReview.uid).Nodup)
    (avg : ℚ) : OldTables :=
  ⟨⟨oldReviews stars, h⟩, { Db.empty with spots := ⟨[ratedCamp avg], List.nodup_singleton _⟩ }⟩

def lowStars : List (String × ℚ) := [("a", 7 / 10), ("b", 3 / 20), ("c", 3 / 20)]

theorem nodup_lowStars : ((oldReviews lowStars).map OldReview.uid).Nodup := by decide +kernel

def fiveStars : List (String × ℚ) := [("a", 5)]

theorem nodup_fiveStars : ((oldReviews fiveStars).map OldReview.uid).Nodup := by decide +kernel

theorem valid_lowStars : (oldTables lowStars nodup_lowStars (1 / 3)).Valid :=
  ⟨by decide +kernel, by decide +kernel, by decide +kernel⟩

theorem valid_fiveStars : (oldTables fiveStars nodup_fiveStars 5).Valid :=
  ⟨by decide +kernel, by decide +kernel, by decide +kernel⟩

end Sample

/-- Three low ratings that add up to one star. -/
theorem upgrade_preserves_low_stars : ∃ d,
    upgrade (Sample.oldTables Sample.lowStars Sample.nodup_lowStars (1 / 3)) = .ok d ∧
      PreservesMeaning (Sample.oldTables Sample.lowStars Sample.nodup_lowStars (1 / 3)) d := by
  obtain ⟨d, hd, hiff⟩ := upgrade_preserves_meaning_iff Sample.valid_lowStars
  exact ⟨d, hd, hiff.2 ⟨by decide +kernel, by decide +kernel⟩⟩

/-- Five stars become five points of ten. -/
theorem upgrade_halves_five_stars :
    (Sample.oldTables Sample.fiveStars Sample.nodup_fiveStars 5).Valid ∧
      ∃ d, upgrade (Sample.oldTables Sample.fiveStars Sample.nodup_fiveStars 5) = .ok d ∧
        (d.reviews.find? "a").map SpotReview.rating = some 5 ∧
        ¬PreservesMeaning (Sample.oldTables Sample.fiveStars Sample.nodup_fiveStars 5) d := by
  refine ⟨Sample.valid_fiveStars, _, upgrade_eq_ok Sample.valid_fiveStars, by decide +kernel, ?_⟩
  intro hmeaning
  obtain ⟨r', hr', hrating⟩ := hmeaning.ratings
    { uid := "a", spotUid := "camp", userId := "a", rating := 5 } List.mem_cons_self
  cases hr'
  revert hrating
  decide +kernel

end Vivac
