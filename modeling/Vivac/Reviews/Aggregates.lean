import Vivac.Freshness.ReviewCalls
import Mathlib.Algebra.Order.BigOperators.Group.List

/-!
# The aggregates of the reviews

A spot holds the number of its reviews that are not deleted, and the mean of their ratings. The
tables are in order when every spot's aggregates are right, no user has two reviews of a spot, and
every rating is within the scale (`ReviewsInOrder`). A write of one review and of the aggregates of
its spot keeps them so (`ReviewsInOrder.recalculated`).
-/

set_option autoImplicit false

namespace Vivac

open Lib

/-- The mean of the ratings, exactly; 0 when there are none. -/
def meanRating (rs : List SpotReview) : ℚ := (rs.map fun r => (r.rating : ℚ)).sum / rs.length

theorem aggregateReviews_mean (spotUid : String) (d : Db) :
    (aggregateReviews spotUid d).1.getD 0 = meanRating (activeReviews spotUid d) := by
  unfold aggregateReviews meanRating
  dsimp only
  split
  · rename_i hempty
    rw [List.isEmpty_iff.1 hempty]
    simp
  · rfl

/-- The mean of ratings within the scale is within the scale. -/
theorem meanRating_inScale {rs : List SpotReview} (h : ∀ r ∈ rs, r.checkRating = true) :
    0 ≤ meanRating rs ∧ meanRating rs ≤ 10 := by
  have hscale : ∀ r ∈ rs, (0 : ℚ) ≤ r.rating ∧ (r.rating : ℚ) ≤ 10 := by
    intro r hr
    have hr' := h r hr
    simp only [SpotReview.checkRating, decide_eq_true_eq] at hr'
    exact ⟨by exact_mod_cast hr'.1, by exact_mod_cast hr'.2⟩
  have hnonneg : 0 ≤ (rs.map fun r => (r.rating : ℚ)).sum := by
    apply List.sum_nonneg
    intro x hx
    obtain ⟨r, hr, rfl⟩ := List.mem_map.1 hx
    exact (hscale r hr).1
  have hle : (rs.map fun r => (r.rating : ℚ)).sum ≤ rs.length * 10 := by
    have hsum := List.sum_le_card_nsmul (rs.map fun r => (r.rating : ℚ)) 10 fun x hx => by
      obtain ⟨r, hr, rfl⟩ := List.mem_map.1 hx
      exact (hscale r hr).2
    rwa [List.length_map, nsmul_eq_mul] at hsum
  refine ⟨div_nonneg hnonneg (Nat.cast_nonneg _), ?_⟩
  cases rs with
  | nil => simp [meanRating]
  | cons r rs =>
      have hpos : (0 : ℚ) < (r :: rs).length := by
        exact_mod_cast Nat.succ_pos rs.length
      rw [meanRating, div_le_iff₀ hpos]
      linarith

/-- Every spot holds the number and the mean of its reviews that are not deleted. -/
structure AggregatesRight (d : Db) : Prop where
  counted : ∀ s ∈ d.spots.rows, s.reviewCount = (activeReviews s.uid d).length
  averaged : ∀ s ∈ d.spots.rows, s.ratingAvg = meanRating (activeReviews s.uid d)

/-- No user has two reviews of one spot that are not deleted. -/
def OneReviewEach (d : Db) : Prop :=
  ∀ r ∈ d.reviews.rows, ∀ r' ∈ d.reviews.rows, r.deletedAt = none → r'.deletedAt = none →
    r.spotUid = r'.spotUid → r.userId = r'.userId → r = r'

/-- The aggregates are right, and the reviews are as their table demands. -/
structure ReviewsInOrder (d : Db) : Prop extends AggregatesRight d where
  single : OneReviewEach d
  inScale : ∀ r ∈ d.reviews.rows, r.checkRating = true

theorem ReviewsInOrder.mean_inScale {d : Db} (h : ReviewsInOrder d) {s : Spot}
    (hs : s ∈ d.spots.rows) : 0 ≤ s.ratingAvg ∧ s.ratingAvg ≤ 10 := by
  rw [h.averaged s hs]
  exact meanRating_inScale fun r hr => h.inScale r (Table.mem_select.1 hr).1

/-- What a spot holds of its reviews. -/
def Spot.aggregates (s : Spot) : ℚ × ℤ := (s.ratingAvg, s.reviewCount)

/-- The aggregates of the spot are as before. -/
def SameAggregates (uid : String) (d d' : Db) : Prop :=
  (d'.spots.find? uid).map Spot.aggregates = (d.spots.find? uid).map Spot.aggregates

/-! ## What writes of reviews leave -/

section Writes

variable {d d' : Db} {k u : String} {r r' : SpotReview}

/-- A new review of one spot is none of another. -/
theorem activeReviews_insert_of_ne (hfresh : d.reviews.find? r.uid = none) (hu : u ≠ r.spotUid) :
    activeReviews u (insertReview r d) = activeReviews u d := by
  have hother : r.activeOf u = false := by
    simp [SpotReview.activeOf, hu.symm]
  have hselect := Table.select_insert hfresh (SpotReview.activeOf u)
  rw [hother, if_neg Bool.false_ne_true, List.append_nil] at hselect
  exact hselect

theorem rows_insertReview (hfresh : d.reviews.find? r.uid = none) :
    (insertReview r d).reviews.rows = d.reviews.rows ++ [r] :=
  Table.rows_insert_of_new (Table.find?_eq_none.1 hfresh)

theorem OneReviewEach.insert (h : OneReviewEach d) (hr : Insertable r d) :
    OneReviewEach (insertReview r d) := by
  intro a ha b hb hactive hactive' hspot huser
  rw [rows_insertReview hr.fresh] at ha hb
  have hfirst : ∀ c ∈ d.reviews.rows, c.deletedAt = none → c.spotUid = r.spotUid →
      c.userId ≠ r.userId := by
    intro c hc hdeleted hsame
    exact hr.first c hc (by simp [SpotReview.activeOf, hdeleted, hsame])
  rcases List.mem_append.1 ha with hold | hnew
  · rcases List.mem_append.1 hb with hold' | hnew'
    · exact h a hold b hold' hactive hactive' hspot huser
    · rw [List.mem_singleton.1 hnew'] at hspot huser
      exact absurd huser (hfirst a hold hactive hspot)
  · rw [List.mem_singleton.1 hnew] at hspot huser ⊢
    rcases List.mem_append.1 hb with hold' | hnew'
    · exact absurd huser.symm (hfirst b hold' hactive' hspot.symm)
    · exact (List.mem_singleton.1 hnew').symm

/-- A new version of a review of one spot is none of another. -/
theorem activeReviews_replace_of_ne (h : d.reviews.Replaces d'.reviews k r')
    (hr : d.reviews.find? k = some r) (hspot : r'.spotUid = r.spotUid) (hu : u ≠ r.spotUid) :
    activeReviews u d' = activeReviews u d := by
  obtain ⟨hmem, hkey⟩ := Table.find?_eq_some.1 hr
  have hother : ∀ s ∈ d.reviews.rows, s.uid = k → s.activeOf u = false ∧ r'.activeOf u = false := by
    intro s hs hs'
    obtain rfl := d.reviews.eq_of_key_eq hs hmem (hs'.trans hkey.symm)
    simp [SpotReview.activeOf, hspot, hu.symm]
  show d'.reviews.rows.filter _ = d.reviews.rows.filter _
  rw [h.rows_eq, List.filter_map]
  have hsame : ∀ s ∈ d.reviews.rows,
      (SpotReview.activeOf u ∘ fun s => if s.uid = k then r' else s) s = s.activeOf u := by
    intro s hs
    by_cases hs' : s.uid = k
    · rw [Function.comp_apply, if_pos hs', (hother s hs hs').1, (hother s hs hs').2]
    · rw [Function.comp_apply, if_neg hs']
  rw [List.filter_congr hsame]
  refine (List.map_congr_left fun s hs => ?_).trans (List.map_id _)
  obtain ⟨hrow, hactive⟩ := List.mem_filter.1 hs
  refine if_neg fun hs' => ?_
  rw [(hother s hrow hs').1] at hactive
  cases hactive

/-- A new version of a review that keeps spot, user and rating, and is not deleted when the review
was not, leaves number and mean. -/
theorem aggregates_of_sameRating (h : d.reviews.Replaces d'.reviews k r')
    (hr : d.reviews.find? k = some r) (hspot : r'.spotUid = r.spotUid)
    (hdeleted : r'.deletedAt = r.deletedAt) (hrating : r'.rating = r.rating) (u : String) :
    (activeReviews u d').length = (activeReviews u d).length ∧
      meanRating (activeReviews u d') = meanRating (activeReviews u d) := by
  obtain ⟨hmem, hkey⟩ := Table.find?_eq_some.1 hr
  have hsame : ∀ s ∈ d.reviews.rows, s.uid = k → s = r := fun s hs hs' =>
    d.reviews.eq_of_key_eq hs hmem (hs'.trans hkey.symm)
  have hactive : activeReviews u d' =
      (activeReviews u d).map fun s => if s.uid = k then r' else s := by
    show d'.reviews.rows.filter _ = (d.reviews.rows.filter _).map _
    rw [h.rows_eq, List.filter_map]
    refine congrArg (List.map _) (List.filter_congr fun s hs => ?_)
    by_cases hs' : s.uid = k
    · rw [Function.comp_apply, if_pos hs', hsame s hs hs']
      simp [SpotReview.activeOf, hspot, hdeleted]
    · rw [Function.comp_apply, if_neg hs']
  have hratings : (activeReviews u d').map (fun s => (s.rating : ℚ)) =
      (activeReviews u d).map fun s => (s.rating : ℚ) := by
    rw [hactive, List.map_map]
    refine List.map_congr_left fun s hs => ?_
    by_cases hs' : s.uid = k
    · rw [Function.comp_apply, if_pos hs', hrating, hsame s (Table.mem_select.1 hs).1 hs']
    · rw [Function.comp_apply, if_neg hs']
  have hlength : (activeReviews u d').length = (activeReviews u d).length := by
    rw [hactive, List.length_map]
  exact ⟨hlength, by rw [meanRating, meanRating, hratings, hlength]⟩

theorem OneReviewEach.replace (h : OneReviewEach d) (hreplaces : d.reviews.Replaces d'.reviews k r')
    (hr : d.reviews.find? k = some r) (hspot : r'.spotUid = r.spotUid)
    (huser : r'.userId = r.userId) (hdeleted : r'.deletedAt = none → r.deletedAt = none) :
    OneReviewEach d' := by
  obtain ⟨hmem, hkey⟩ := Table.find?_eq_some.1 hr
  -- every review now is a version of one before
  have hversion : ∀ a ∈ d'.reviews.rows, a.deletedAt = none → ∃ s ∈ d.reviews.rows,
      s.deletedAt = none ∧ s.spotUid = a.spotUid ∧ s.userId = a.userId ∧
        a = if s.uid = k then r' else s := by
    intro a ha hactive
    rw [hreplaces.rows_eq] at ha
    obtain ⟨s, hs, rfl⟩ := List.mem_map.1 ha
    by_cases hs' : s.uid = k
    · obtain rfl := d.reviews.eq_of_key_eq hs hmem (hs'.trans hkey.symm)
      rw [if_pos hs'] at hactive
      refine ⟨s, hs, hdeleted hactive, ?_, ?_, rfl⟩
      · rw [if_pos hs', hspot]
      · rw [if_pos hs', huser]
    · rw [if_neg hs'] at hactive
      refine ⟨s, hs, hactive, ?_, ?_, rfl⟩
      · rw [if_neg hs']
      · rw [if_neg hs']
  intro a ha b hb hactive hactive' hsameSpot hsameUser
  obtain ⟨s, hs, hlive, hspot₁, huser₁, hversion₁⟩ := hversion a ha hactive
  obtain ⟨t, ht, hlive', hspot₂, huser₂, hversion₂⟩ := hversion b hb hactive'
  obtain rfl := h s hs t ht hlive hlive' (hspot₁.trans (hsameSpot.trans hspot₂.symm))
    (huser₁.trans (hsameUser.trans huser₂.symm))
  rw [hversion₁, hversion₂]

end Writes

/-! ## Aggregates written -/

/-- The aggregates of one spot are written over, after its reviews have changed. -/
theorem ReviewsInOrder.recalculated {db d₁ d' : Db} {u : String} {now : Timestamp}
    (h : ReviewsInOrder db) (hspots : d₁.spots = db.spots)
    (hothers : ∀ u', u' ≠ u → activeReviews u' d₁ = activeReviews u' db)
    (hsingle : OneReviewEach d₁) (hscale : ∀ r ∈ d₁.reviews.rows, r.checkRating = true)
    (hreviews : d'.reviews = d₁.reviews)
    (hrows : d'.spots.rows = d₁.spots.rows.map fun s => if s.uid == u then
      { s with
        ratingAvg := (aggregateReviews u d₁).1.getD 0
        reviewCount := (aggregateReviews u d₁).2
        updatedAt := some now }
      else s) :
    ReviewsInOrder d' ∧ ∀ u', u' ≠ u → SameAggregates u' db d' := by
  have hactive : ∀ u', activeReviews u' d' = activeReviews u' d₁ := by
    intro u'
    rw [activeReviews, activeReviews, hreviews]
  have hspot : ∀ s' ∈ d'.spots.rows, s'.reviewCount = (activeReviews s'.uid d').length ∧
      s'.ratingAvg = meanRating (activeReviews s'.uid d') := by
    intro s' hs'
    rw [hrows, hspots] at hs'
    obtain ⟨s, hs, rfl⟩ := List.mem_map.1 hs'
    by_cases huid : s.uid = u
    · rw [if_pos (beq_iff_eq.2 huid)]
      dsimp only
      rw [hactive, huid, aggregateReviews_mean]
      exact ⟨rfl, rfl⟩
    · rw [if_neg (by simpa using huid), hactive, hothers s.uid huid]
      exact ⟨h.counted s hs, h.averaged s hs⟩
  refine ⟨⟨⟨fun s' hs' => (hspot s' hs').1, fun s' hs' => (hspot s' hs').2⟩, ?_, ?_⟩, ?_⟩
  · rw [OneReviewEach, hreviews]
    exact hsingle
  · rw [hreviews]
    exact hscale
  · intro u' hu'
    have hfind : ∀ s, d'.spots.find? u' = some s ↔ db.spots.find? u' = some s := by
      intro s
      rw [Table.find?_eq_some, Table.find?_eq_some, hrows, hspots]
      refine and_congr_left fun huid => ?_
      constructor
      · intro hmem
        obtain ⟨t, ht, hts⟩ := List.mem_map.1 hmem
        by_cases htu : t.uid = u
        · rw [if_pos (beq_iff_eq.2 htu)] at hts
          have hsame : s.uid = t.uid := by rw [← hts]
          exact absurd (huid.symm.trans (hsame.trans htu)) hu'
        · rw [if_neg (by simpa using htu)] at hts
          rwa [← hts]
      · intro hmem
        refine List.mem_map.2 ⟨s, hmem, if_neg ?_⟩
        simpa [huid] using hu'
    have heq : d'.spots.find? u' = db.spots.find? u' := Option.ext hfind
    rw [SameAggregates, heq]

/-- The reviews have changed, and no aggregates need to. -/
theorem ReviewsInOrder.rewritten {db d' : Db} (h : ReviewsInOrder db) (hspots : d'.spots = db.spots)
    (hsame : ∀ u, (activeReviews u d').length = (activeReviews u db).length ∧
      meanRating (activeReviews u d') = meanRating (activeReviews u db))
    (hsingle : OneReviewEach d') (hscale : ∀ r ∈ d'.reviews.rows, r.checkRating = true) :
    ReviewsInOrder d' ∧ ∀ u, SameAggregates u db d' := by
  refine ⟨⟨⟨fun s hs => ?_, fun s hs => ?_⟩, hsingle, hscale⟩, fun u => ?_⟩
  · rw [hspots] at hs
    rw [(hsame s.uid).1]
    exact h.counted s hs
  · rw [hspots] at hs
    rw [(hsame s.uid).2]
    exact h.averaged s hs
  · rw [SameAggregates, hspots]

end Vivac
